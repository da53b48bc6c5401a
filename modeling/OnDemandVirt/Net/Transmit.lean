import Mathlib.Logic.Relation
import OnDemandVirt.Net.Pro1000

/-!
# Which transmit descriptors are taken

The loop over one descriptor goes on while there are bytes that the packet buffer had no room for,
and nothing makes sure that the pass before has made room: a data descriptor is taken (`Fits`) when
what it brings fits into the buffer, or when each pass can send a frame. The end of a packet in
segments has to find a whole segment in the buffer, or the number of bytes behind the segment wraps
around. The loop over the ring comes to an end when it meets the tail and takes every descriptor on
the way (`transmit_done_iff`).
-/

namespace OnDemandVirt.Net.Pro1000

open OnDemandVirt.Lib

variable {mem : GuestMem} {td : Tdesc} {d d' e : Data2}

/-! ### One descriptor -/

/-- How often the buffer is filled, and a segment sent, before the rest of `total` bytes fits. -/
def fills (mss total : Nat) : Nat := (total - bufsize + mss - 1) / mss

theorem fills_of_le {mss total : Nat} (h : total ≤ bufsize) : fills mss total = 0 := by
  rw [fills, show total - bufsize + mss - 1 = mss - 1 by omega]
  rcases Nat.eq_zero_or_pos mss with rfl | hpos
  · rfl
  · exact Nat.div_eq_of_lt (by omega)

theorem fills_of_lt {mss total : Nat} (hpos : 0 < mss) (h : bufsize < total) :
    fills mss total = fills mss (total - mss) + 1 := by
  have hbuf : 0 < bufsize := by decide
  rcases Nat.lt_or_ge (total - mss) bufsize with hlt | hge
  · rw [fills_of_le (Nat.le_of_lt hlt), fills]
    refine Nat.div_eq_of_lt_le ?_ ?_ <;> omega
  · rw [fills, fills, ← Nat.add_div_right _ hpos]
    exact congrArg (· / mss) (by omega)

instance (td : Tdesc) (d : Data2) : Decidable (Midway td d) := inferInstanceAs (Decidable (_ ∧ _))

/-- A packet in segments has `total` bytes at hand, and this is not the last segment: each pass
that fills the buffer sends one, and at the end of the packet there is a whole one, or the last. -/
def FitsSegments (td : Tdesc) (x : Dext0) (total : Nat) : Prop :=
  (total ≤ bufsize ∨ 0 < x.mss.toNat ∧ x.hdrlen.toNat + x.mss.toNat ≤ bufsize) ∧
    (td.dcmdEop = true →
      (bufsize < total ∧ x.hdrlen.toNat = 0 ∧ x.mss.toNat = bufsize) ∨
        x.paylen ≤ (fills x.mss.toNat total + 1) * x.mss.toNat ∨
        x.hdrlen.toNat + x.mss.toNat ≤ total - fills x.mss.toNat total * x.mss.toNat)

/-- A data descriptor of `tdlen` bytes is taken. -/
def Fits (td : Tdesc) (d : Data2) (tdlen : Nat) : Prop :=
  if td.dcmdIfcs = true ∧ Midway td d then FitsSegments td d.dext0 (d.len + tdlen)
  else d.len + tdlen ≤ bufsize ∨
    td.dcmdIfcs = true ∧ (td.dcmdEop = true ∨ td.dcmdTse = true ∧ d.dextsize ≤ bufsize)

theorem dextlast_congr (h : d.dext0 = e.dext0) : d.dextlast = e.dextlast := by
  rw [Data2.dextlast, Data2.dextlast, h]

theorem dextsize_congr (h : d.dext0 = e.dext0) : d.dextsize = e.dextsize := by
  rw [Data2.dextsize, Data2.dextsize, dextlast_congr h, h]

theorem midway_congr (hx : d.dext0 = e.dext0) (hr : d.recvvirt = e.recvvirt) :
    Midway td d ↔ Midway td e := by
  rw [Midway, Midway, hr, dextlast_congr hx]

theorem fits_congr {l l' : Nat} (hlen : d.len + l = e.len + l') (hx : d.dext0 = e.dext0)
    (hr : d.recvvirt = e.recvvirt) : Fits td d l ↔ Fits td e l' := by
  rw [Fits, Fits, hlen, dextsize_congr hx, hx]
  simp only [midway_congr hx hr]

theorem lt_paylen_iff : d.dextlast = false ↔ d.dext0.mss.toNat < d.dext0.paylen := by
  simp [Data2.dextlast]

/-- A pass that has filled the buffer and sent a segment leaves the rest to be taken. -/
theorem fits_rest {l l' : Nat} (hifcs : td.dcmdIfcs = true) (hmid : Midway td d)
    (hfull : bufsize < d.len + l) (hpos : 0 < d.dext0.mss.toNat)
    (hroom : d.dextsize ≤ bufsize) (hkeep : d.dext0.mss.toNat < bufsize)
    (hlen : e.len + l' = d.len + l - d.dext0.mss.toNat) (hx : e.dext0 = d.dext0.less)
    (hr : e.recvvirt = true) : Fits td d l ↔ Fits td e l' := by
  have hlast := lt_paylen_iff.1 hmid.2.2
  rw [dextsize_of_not_last hmid.2.2] at hroom
  have hq := fills_of_lt hpos hfull
  rw [← hlen] at hq
  have hmul : (fills d.dext0.mss.toNat (e.len + l') + 1 + 1) * d.dext0.mss.toNat =
      (fills d.dext0.mss.toNat (e.len + l') + 1) * d.dext0.mss.toNat + d.dext0.mss.toNat :=
    Nat.succ_mul _ _
  have hmul' : (fills d.dext0.mss.toNat (e.len + l') + 1) * d.dext0.mss.toNat =
      fills d.dext0.mss.toNat (e.len + l') * d.dext0.mss.toNat + d.dext0.mss.toNat :=
    Nat.succ_mul _ _
  rw [Fits, if_pos ⟨hifcs, hmid⟩, FitsSegments, hq]
  by_cases hnext : e.dextlast = false
  · have hmid' : Midway td e := ⟨hmid.1, hr, hnext⟩
    rw [Fits, if_pos ⟨hifcs, hmid'⟩, FitsSegments, hx]
    simp only [Dext0.less]
    constructor
    · rintro ⟨-, h⟩
      refine ⟨.inr ⟨hpos, hroom⟩, fun heop => ?_⟩
      rcases h heop with h | h | h <;> omega
    · rintro ⟨-, h⟩
      refine ⟨.inr ⟨hpos, hroom⟩, fun heop => ?_⟩
      rcases h heop with h | h | h <;> omega
  · have hpay : d.dext0.paylen - d.dext0.mss.toNat ≤ d.dext0.mss.toNat := by
      rw [lt_paylen_iff, hx] at hnext
      exact Nat.not_lt.mp hnext
    have hsize : e.dextsize ≤ bufsize := by
      rw [dextsize_of_last (by simpa using hnext), hx, Dext0.less]
      simp only
      omega
    rw [Fits, if_neg fun h => hnext h.2.2.2]
    constructor
    · exact fun _ => .inr ⟨hifcs, .inr ⟨hmid.1, hsize⟩⟩
    · exact fun _ => ⟨.inr ⟨hpos, hroom⟩, fun _ => .inr (.inl (by omega))⟩

/-! ### The loop over one descriptor -/

section copy

variable (mem : GuestMem) (d : Data2) (a : BitVec 64) (l : Nat)

@[simp] theorem copytobuf_len : (tdescCopytobuf mem d a l).len = d.len + d.room l := rfl
@[simp] theorem copytobuf_dext0 : (tdescCopytobuf mem d a l).dext0 = d.dext0 := rfl
@[simp] theorem copytobuf_recvvirt : (tdescCopytobuf mem d a l).recvvirt = d.recvvirt := rfl

end copy

theorem room_le (d : Data2) (l : Nat) : d.room l ≤ l := Nat.min_le_right _ _

/-- Either everything is copied, or the buffer is full. -/
theorem room_cases (d : Data2) (l : Nat) :
    d.room l = l ∧ d.len + l ≤ bufsize ∨
      d.len + d.room l = bufsize ∧ d.room l < l ∧ bufsize < d.len + l := by
  have := d.len_le
  rw [Data2.room]
  omega

theorem gather_succ (fuel : Nat) (a : BitVec 64) (l : Nat)
    (h : pass td (tdescCopytobuf mem d a l) = .done d') :
    gather mem td (fuel + 1) d a l =
      if l - d.room l = 0 ∨ d'.len = 0 then .done d'
      else gather mem td fuel d' (a + BitVec.ofNat 64 (d.room l)) (l - d.room l) := by
  rw [gather, h]
  rfl

theorem gather_overrun (fuel : Nat) (a : BitVec 64) (l : Nat)
    (h : pass td (tdescCopytobuf mem d a l) = .overrun) :
    gather mem td (fuel + 1) d a l = .overrun := by
  rw [gather, h]
  rfl

/-- A loop that comes out has taken the descriptor. -/
theorem fits_of_gather {fuel : Nat} {a : BitVec 64} {l : Nat}
    (h : gather mem td fuel d a l = .done e) : Fits td d l := by
  induction fuel generalizing d a l with
  | zero => cases h
  | succ fuel ih =>
    generalize hd₁ : tdescCopytobuf mem d a l = d₁
    have hlen : d₁.len = d.len + d.room l := by rw [← hd₁]; rfl
    have hx : d₁.dext0 = d.dext0 := by rw [← hd₁]; rfl
    have hr : d₁.recvvirt = d.recvvirt := by rw [← hd₁]; rfl
    have hsize := dextsize_congr hx
    have hmid : Midway td d₁ ↔ Midway td d := midway_congr hx hr
    have hroom := room_cases d l
    have hroomle := room_le d l
    by_cases hs : Sends td d₁
    · by_cases hm : Midway td d₁
      · rcases Nat.lt_or_ge d₁.len d₁.dextsize with hlt | hge
        · have heop : td.dcmdEop = true := hs.2.resolve_right (by omega)
          rw [gather_overrun _ _ _ (by rw [hd₁, pass_overrun hs.1 hm heop hlt])] at h
          cases h
        · have hsz := dextsize_of_not_last hm.2.2
          rw [hx] at hsz
          rw [gather_succ _ _ _ (by rw [hd₁, pass_segment hs.1 hm hge])] at h
          rcases hroom with ⟨hall, hle⟩ | ⟨hfull, hless, hbig⟩
          · rw [Fits, if_pos ⟨hs.1, hmid.mp hm⟩, FitsSegments, fills_of_le hle]
            refine ⟨.inl hle, fun _ => .inr (.inr ?_)⟩
            omega
          · have hlen' : (emit td d₁.seen).rest.len = d₁.len - d.dext0.mss.toNat := by simp [hx]
            split at h
            next hend =>
              rw [hlen'] at hend
              rw [Fits, if_pos ⟨hs.1, hmid.mp hm⟩, FitsSegments]
              refine ⟨.inr ?_, fun _ => .inl ?_⟩
              all_goals rw [bufsize] at *; omega
            next hgo =>
              rw [hlen'] at hgo
              have ih' := ih h
              rcases Nat.eq_zero_or_pos d.dext0.mss.toNat with hzero | hpos
              · have hsame : Fits td d l ↔ Fits td (emit td d₁.seen).rest (l - d.room l) := by
                  refine fits_congr (by rw [hlen']; omega) ?_ (by simp [hr])
                  rw [rest_dext0, emit_dext0, seen_dext0, hx, Dext0.less, hzero]
                  rfl
                exact hsame.mpr ih'
              · refine (fits_rest hs.1 (hmid.mp hm) hbig hpos (by omega) (by omega)
                  (by rw [hlen']; omega) (by simp [hx]) ?_).mpr ih'
                simpa using hm.2.1
      · rw [Fits, if_neg fun h => hm (hmid.mpr h.2)]
        refine .inr ⟨hs.1, hs.2.imp_right fun h => ⟨h.1, ?_⟩⟩
        have := d₁.len_le
        omega
    · obtain ⟨d₂, hpass, hcore⟩ := pass_idle hs
      have hlen₂ : d₂.len = d₁.len := congrArg Prod.fst hcore
      have hx₂ : d₂.dext0 = d₁.dext0 := congrArg (·.2.1) hcore
      have hr₂ : d₂.recvvirt = d₁.recvvirt := congrArg (·.2.2) hcore
      rw [gather_succ _ _ _ (by rw [hd₁, hpass])] at h
      split at h
      next hend =>
        have hle : d.len + l ≤ bufsize := by
          have : bufsize ≠ 0 := by decide
          omega
        rw [Fits]
        split
        next hm =>
          exact ⟨.inl hle, fun heop => absurd ⟨hm.1, .inl heop⟩ hs⟩
        · exact .inl hle
      next =>
        exact (fits_congr (by omega) (hx₂.trans hx) (hr₂.trans hr)).mp (ih h)

/-- The loop over a descriptor that is taken comes out. -/
theorem gather_of_fits {a : BitVec 64} {l : Nat} (h : Fits td d l) :
    ∃ fuel e, gather mem td fuel d a l = .done e := by
  induction hn : d.len + l using Nat.strongRecOn generalizing d a l with
  | _ n ih =>
  generalize hd₁ : tdescCopytobuf mem d a l = d₁
  have hlen : d₁.len = d.len + d.room l := by rw [← hd₁]; rfl
  have hx : d₁.dext0 = d.dext0 := by rw [← hd₁]; rfl
  have hr : d₁.recvvirt = d.recvvirt := by rw [← hd₁]; rfl
  have hsize := dextsize_congr hx
  have hmid : Midway td d₁ ↔ Midway td d := midway_congr hx hr
  have hroom := room_cases d l
  have hroomle := room_le d l
  by_cases hs : Sends td d₁
  · by_cases hm : Midway td d₁
    · have hlast := lt_paylen_iff.1 hm.2.2
      have hsz := dextsize_of_not_last hm.2.2
      rw [hx] at hsz hlast
      rw [Fits, if_pos ⟨hs.1, hmid.mp hm⟩] at h
      have hge : d₁.dextsize ≤ d₁.len := by
        by_contra hlt
        have heop : td.dcmdEop = true := hs.2.resolve_right (by omega)
        rcases hroom with ⟨hall, hle⟩ | ⟨hfull, hless, hbig⟩
        · have := h.2 heop
          rw [fills_of_le hle] at this
          omega
        · rcases h.1 with h1 | h1 <;> omega
      have hlen' : (emit td d₁.seen).rest.len = d₁.len - d.dext0.mss.toNat := by simp [hx]
      by_cases hend : l - d.room l = 0 ∨ (emit td d₁.seen).rest.len = 0
      · exact ⟨1, _, by rw [gather_succ _ _ _ (by rw [hd₁, pass_segment hs.1 hm hge]), if_pos hend]⟩
      · have hbig : bufsize < d.len + l := by omega
        have hpos : 0 < d.dext0.mss.toNat := by
          rcases h.1 with h1 | h1 <;> omega
        have hrest : Fits td (emit td d₁.seen).rest (l - d.room l) :=
          (fits_rest hs.1 (hmid.mp hm) hbig hpos (by omega) (by omega) (by rw [hlen']; omega)
            (by simp [hx]) (by simpa using hm.2.1)).mp
            (by rw [Fits, if_pos ⟨hs.1, hmid.mp hm⟩]; exact h)
        obtain ⟨fuel, e, hrun⟩ := ih _ (by omega) (a := a + BitVec.ofNat 64 (d.room l)) hrest rfl
        refine ⟨fuel + 1, e, ?_⟩
        rw [gather_succ _ _ _ (by rw [hd₁, pass_segment hs.1 hm hge]), if_neg hend, hrun]
    · obtain ⟨d₂, hpass, hcore⟩ := pass_clear hs hm
      have hlen₂ : d₂.len = 0 := congrArg Prod.fst hcore
      exact ⟨1, _, by rw [gather_succ _ _ _ (by rw [hd₁, hpass]), if_pos (.inr hlen₂)]⟩
  · obtain ⟨d₂, hpass, hcore⟩ := pass_idle hs
    have hle : d.len + l ≤ bufsize := by
      by_contra hbig
      have hfull : d₁.len = bufsize := by omega
      rw [Fits] at h
      split at h
      next hm =>
        have hsz := dextsize_of_not_last hm.2.2.2
        rcases h.1 with h1 | h1
        · exact hbig h1
        · exact hs ⟨hm.1, .inr ⟨hm.2.1, by omega⟩⟩
      next =>
        rcases h with h | ⟨hifcs, heop | ⟨htse, hfr⟩⟩
        · exact hbig h
        · exact hs ⟨hifcs, .inl heop⟩
        · exact hs ⟨hifcs, .inr ⟨htse, by omega⟩⟩
    exact ⟨1, _, by rw [gather_succ _ _ _ (by rw [hd₁, hpass]), if_pos (.inl (by omega))]⟩

theorem gather_mono {fuel : Nat} {a : BitVec 64} {l : Nat}
    (h : gather mem td fuel d a l = .done e) (more : Nat) :
    gather mem td (fuel + more) d a l = .done e := by
  induction fuel generalizing d a l with
  | zero => cases h
  | succ fuel ih =>
    rw [show fuel + 1 + more = fuel + more + 1 by omega]
    cases hpass : pass td (tdescCopytobuf mem d a l) with
    | running =>
      rw [gather, hpass] at h
      cases h
    | overrun =>
      rw [gather_overrun _ _ _ hpass] at h
      cases h
    | done d' =>
      rw [gather_succ _ _ _ hpass] at h ⊢
      split at h
      next hend => rw [if_pos hend, h]
      next hgo => rw [if_neg hgo, ih h]

/-- A descriptor is taken: only data descriptors can fail. -/
def Takes (d : Data2) (td : Tdesc) : Prop :=
  td.cmdDext = true → td.dtyp = 1 → Fits td d td.dtalen.toNat

theorem latchOptions_core (td : Tdesc) (d : Data2) : (latchOptions td d).core = d.core := by
  rw [latchOptions]
  split <;> rfl

theorem fits_latchOptions (l : Nat) : Fits td (latchOptions td d) l ↔ Fits td d l := by
  have hcore := latchOptions_core td d
  have hlen : (latchOptions td d).len = d.len := congrArg Prod.fst hcore
  exact fits_congr (by rw [hlen]) (congrArg (·.2.1) hcore) (congrArg (·.2.2) hcore)

theorem processTdesc_of_takes (h : Takes d td) :
    ∃ fuel e, ∀ more, processTdesc mem d td (fuel + more) = .done e := by
  by_cases hdext : td.cmdDext = true
  · by_cases hctx : td.dtyp = 0
    · exact ⟨0, setContext td d, fun _ => by rw [processTdesc, if_pos hdext, if_pos hctx]; rfl⟩
    · by_cases hdata : td.dtyp = 1
      · obtain ⟨fuel, e, hrun⟩ : ∃ fuel e, gather mem td fuel (latchOptions td d) td.addr
            td.dtalen.toNat = .done e :=
          gather_of_fits ((fits_latchOptions _).mpr (h hdext hdata))
        refine ⟨fuel, e, fun more => ?_⟩
        rw [processTdesc, if_pos hdext, if_neg hctx, if_pos hdata, gather_mono hrun]
      · exact ⟨0, d, fun _ => by
          rw [processTdesc, if_pos hdext, if_neg hctx, if_neg hdata]; rfl⟩
  · by_cases hlegacy : td.addr ≠ 0 ∧ td.len ≠ 0
    · exact ⟨0, processLegacy mem d td, fun _ => by
        rw [processTdesc, if_neg hdext, if_pos hlegacy]; rfl⟩
    · exact ⟨0, d, fun _ => by rw [processTdesc, if_neg hdext, if_neg hlegacy]; rfl⟩

theorem takes_of_processTdesc {fuel : Nat} (h : processTdesc mem d td fuel = .done e) :
    Takes d td := by
  intro hdext hdata
  rw [processTdesc, if_pos hdext, if_neg (by rw [hdata]; decide), if_pos hdata] at h
  exact (fits_latchOptions _).mp (fits_of_gather h)

/-- What comes out does not depend on how long the loop may run. -/
theorem processTdesc_unique {fuel fuel' : Nat} (h : processTdesc mem d td fuel = .done e)
    (h' : processTdesc mem d td fuel' = .done d') : e = d' := by
  obtain ⟨n, x, hx⟩ : ∃ n x, ∀ more, processTdesc mem d td (n + more) = .done x :=
    processTdesc_of_takes (takes_of_processTdesc h)
  have hmono : ∀ {fuel : Nat} {y : Data2}, processTdesc mem d td fuel = .done y → x = y := by
    intro fuel y hy
    have hlong : processTdesc mem d td (fuel + n) = .done y := by
      rw [processTdesc] at hy ⊢
      split at hy
      · split at hy
        next hdext hctx => rw [if_pos hdext, if_pos hctx, hy]
        next hdext hctx =>
        split at hy
        next hdata => rw [if_pos hdext, if_neg hctx, if_pos hdata, gather_mono hy]
        next hdata => rw [if_pos hdext, if_neg hctx, if_neg hdata, hy]
      next hdext =>
        rw [if_neg hdext]
        exact hy
    have hx' := hx fuel
    rw [Nat.add_comm, hlong] at hx'
    exact (Outcome.done.inj hx').symm
  exact (hmono h).symm.trans (hmono h')

/-! ### The ring -/

variable {s : DescShadow} {t t' r : TxState}

/-- The loop takes the descriptor that it is at. -/
def TxState.Takes (s : DescShadow) (t : TxState) : Prop :=
  Pro1000.Takes t.d2 (t.mem.tdesc (s.addr t.i))

/-- One pass of the loop over the ring. -/
def Step (s : DescShadow) (t t' : TxState) : Prop :=
  t.i ≠ s.tail.toNat ∧ ∃ fuel d, processTdesc t.mem t.d2 (t.mem.tdesc (s.addr t.i)) fuel = .done d ∧
    t' = t.advance s d

/-- The states that the loop comes through. -/
abbrev Reaches (s : DescShadow) : TxState → TxState → Prop := Relation.ReflTransGen (Step s)

/-- The tail is on the way. -/
def DescShadow.TailAhead (s : DescShadow) (i : Nat) : Prop := ∃ n, s.next^[n] i = s.tail.toNat

/-- The tail is an index of the ring, or the head itself. -/
def DescShadow.TailInRing (s : DescShadow) : Prop :=
  s.tail = s.head ∨ s.tail = 0 ∨ s.tail.toNat * 16 < s.len.toNat

instance (s : DescShadow) : Decidable s.TailInRing := inferInstanceAs (Decidable (_ ∨ _ ∨ _))

theorem next_reaches_zero (s : DescShadow) (i : Nat) : ∃ n, s.next^[n] i = 0 := by
  induction hk : s.len.toNat - i using Nat.strongRecOn generalizing i with
  | _ k ih =>
    by_cases hwrap : s.len.toNat ≤ (i + 1) * 16
    · exact ⟨1, if_pos hwrap⟩
    · obtain ⟨n, hn⟩ := ih (s.len.toNat - (i + 1)) (by omega) (i + 1) rfl
      refine ⟨n + 1, ?_⟩
      rw [Function.iterate_succ_apply, DescShadow.next, if_neg hwrap, hn]

theorem next_iterate_zero (s : DescShadow) {j : Nat} (hj : j * 16 < s.len.toNat) :
    s.next^[j] 0 = j := by
  induction j with
  | zero => rfl
  | succ j ih =>
    rw [Function.iterate_succ_apply', ih (by omega), DescShadow.next, if_neg (by omega)]

theorem tailAhead_head_iff (s : DescShadow) : s.TailAhead s.head.toNat ↔ s.TailInRing := by
  constructor
  · rintro ⟨_ | n, hn⟩
    · exact .inl (BitVec.eq_of_toNat_eq hn.symm)
    · rw [Function.iterate_succ_apply', DescShadow.next] at hn
      split at hn
      · exact .inr (.inl (BitVec.eq_of_toNat_eq hn.symm))
      · exact .inr (.inr (by omega))
  · rintro (h | h | h)
    · exact ⟨0, by rw [h]; rfl⟩
    · obtain ⟨n, hn⟩ := next_reaches_zero s s.head.toNat
      exact ⟨n, by rw [h, hn]; rfl⟩
    · obtain ⟨n, hn⟩ := next_reaches_zero s s.head.toNat
      refine ⟨s.tail.toNat + n, ?_⟩
      rw [Function.iterate_add_apply, hn, next_iterate_zero s h]

theorem transmit_tail {fuel : Nat} (h : t.i = s.tail.toNat) : transmit s (fuel + 1) t = .done t :=
  if_neg (not_not.mpr h)

theorem transmit_step {fuel : Nat} (h : t.i ≠ s.tail.toNat)
    (hd : processTdesc t.mem t.d2 (t.mem.tdesc (s.addr t.i)) fuel = .done d) :
    transmit s (fuel + 1) t = transmit s fuel (t.advance s d) := by
  rw [transmit, if_pos h, hd]
  rfl

/-- The first pass of a loop that comes out. -/
theorem transmit_done {fuel : Nat} (h : transmit s fuel t = .done r) :
    (t.i = s.tail.toNat ∧ r = t) ∨ ∃ n d, fuel = n + 1 ∧ t.i ≠ s.tail.toNat ∧
      processTdesc t.mem t.d2 (t.mem.tdesc (s.addr t.i)) n = .done d ∧
        transmit s n (t.advance s d) = .done r := by
  cases fuel with
  | zero => cases h
  | succ n =>
    by_cases htail : t.i = s.tail.toNat
    · rw [transmit_tail htail] at h
      exact .inl ⟨htail, (Outcome.done.inj h).symm⟩
    · cases hd : processTdesc t.mem t.d2 (t.mem.tdesc (s.addr t.i)) n with
      | running =>
        rw [transmit, if_pos htail, hd] at h
        cases h
      | overrun =>
        rw [transmit, if_pos htail, hd] at h
        cases h
      | done d =>
        rw [transmit_step htail hd] at h
        exact .inr ⟨n, d, rfl, htail, hd, h⟩

/-- A loop that comes out has met the tail and taken every descriptor on the way. -/
theorem takes_of_transmit {fuel : Nat} (h : transmit s fuel t = .done r) :
    s.TailAhead t.i ∧ ∀ t', Reaches s t t' → t'.i ≠ s.tail.toNat → t'.Takes s := by
  induction fuel generalizing t with
  | zero => cases h
  | succ fuel ih =>
    rcases transmit_done h with ⟨htail, rfl⟩ | ⟨n, d, hn, hne, hd, hrest⟩
    · refine ⟨⟨0, htail⟩, fun t' hreach hne => ?_⟩
      rcases hreach.cases_head with rfl | ⟨u, hstep, -⟩
      · exact absurd htail hne
      · exact absurd htail hstep.1
    · obtain rfl : fuel = n := by omega
      obtain ⟨⟨k, hk⟩, hall⟩ := ih hrest
      refine ⟨⟨k + 1, by rw [Function.iterate_succ_apply]; exact hk⟩, fun t' hreach hne' => ?_⟩
      rcases hreach.cases_head with rfl | ⟨u, ⟨-, fuel', d', hd', rfl⟩, hreach'⟩
      · exact takes_of_processTdesc hd
      · rw [processTdesc_unique hd' hd] at hreach'
        exact hall t' hreach' hne'

/-- A loop that meets the tail and takes every descriptor on the way comes out. -/
theorem transmit_of_takes (htail : s.TailAhead t.i)
    (htakes : ∀ t', Reaches s t t' → t'.i ≠ s.tail.toNat → t'.Takes s) :
    ∃ fuel r, ∀ more, transmit s (fuel + more) t = .done r := by
  obtain ⟨n, hn⟩ := htail
  induction n generalizing t with
  | zero =>
    refine ⟨1, t, fun more => ?_⟩
    rw [Nat.add_comm, transmit_tail hn]
  | succ n ih =>
    by_cases hne : t.i = s.tail.toNat
    · refine ⟨1, t, fun more => ?_⟩
      rw [Nat.add_comm, transmit_tail hne]
    · obtain ⟨fuel, d, hd⟩ : ∃ fuel d, ∀ more, processTdesc t.mem t.d2
          (t.mem.tdesc (s.addr t.i)) (fuel + more) = .done d :=
        processTdesc_of_takes (htakes t .refl hne)
      have hstep : Step s t (t.advance s d) := ⟨hne, fuel, d, hd 0, rfl⟩
      obtain ⟨fuel', r, hr⟩ := ih (t := t.advance s d)
        (fun t' hreach => htakes t' (.head hstep hreach))
        (by rw [← hn, Function.iterate_succ_apply]; rfl)
      refine ⟨fuel + fuel' + 1, r, fun more => ?_⟩
      rw [show fuel + fuel' + 1 + more = fuel + (fuel' + more) + 1 by omega,
        transmit_step hne (hd _), show fuel + (fuel' + more) = fuel' + (fuel + more) by omega, hr]

/-- The loop over the ring comes out, without a write past the packet buffer, exactly if the tail
is in the ring and every descriptor on the way is taken. -/
theorem transmit_done_iff (s : DescShadow) (mem : GuestMem) (d : Data2) :
    (∃ fuel r, transmit s fuel ⟨mem, d, s.head.toNat⟩ = .done r) ↔
      s.TailInRing ∧ ∀ t, Reaches s ⟨mem, d, s.head.toNat⟩ t → t.i ≠ s.tail.toNat → t.Takes s := by
  rw [← tailAhead_head_iff]
  constructor
  · rintro ⟨fuel, r, h⟩
    exact takes_of_transmit h
  · rintro ⟨htail, htakes⟩
    obtain ⟨fuel, r, h⟩ := transmit_of_takes (t := ⟨mem, d, s.head.toNat⟩) htail htakes
    exact ⟨fuel, r, h 0⟩

/-! ### The marks -/

/-- The indices that the loop comes to before the tail. -/
inductive DescShadow.Before (s : DescShadow) : Nat → Nat → Prop
  | here {i : Nat} : i ≠ s.tail.toNat → s.Before i i
  | later {i j : Nat} : i ≠ s.tail.toNat → s.Before (s.next i) j → s.Before i j

/-- What the loop does to the guest's memory: of the descriptors it comes to, the ones that ask for
a report are marked as done, and no other bit has changed. -/
structure Marked (s : DescShadow) (mem mem' : GuestMem) (visited : Nat → Prop) : Prop where
  marks : ∀ i, visited i → (mem.tdesc (s.addr i)).reported = true →
    (mem'.tdesc (s.addr i)).staDd = true
  others : ∀ a, (∀ i, visited i → (mem.tdesc (s.addr i)).reported = true → a ≠ s.addr i + 12) →
    mem' a = mem a
  bits : ∀ a k, k ≠ 0 → (mem' a).getLsbD k = (mem a).getLsbD k
  keeps : ∀ a, (mem a).getLsbD 0 = true → (mem' a).getLsbD 0 = true

theorem setDd_self (mem : GuestMem) (a : BitVec 64) : mem.setDd a (a + 12) = mem (a + 12) ||| 1 :=
  Function.update_self _ _ _

theorem setDd_of_ne (mem : GuestMem) {a b : BitVec 64} (h : b ≠ a + 12) : mem.setDd a b = mem b :=
  Function.update_of_ne h _ _

theorem setDd_bits (mem : GuestMem) (a b : BitVec 64) {k : Nat} (hk : k ≠ 0) :
    (mem.setDd a b).getLsbD k = (mem b).getLsbD k := by
  by_cases h : b = a + 12
  · rw [h, setDd_self, BitVec.getLsbD_or, show (1 : BitVec 8) = BitVec.twoPow 8 0 from rfl,
      BitVec.getLsbD_twoPow]
    simp [Ne.symm hk]
  · rw [setDd_of_ne _ h]

theorem setDd_keeps (mem : GuestMem) (a b : BitVec 64) (h : (mem b).getLsbD 0 = true) :
    (mem.setDd a b).getLsbD 0 = true := by
  by_cases hb : b = a + 12
  · rw [hb] at h ⊢
    rw [setDd_self, BitVec.getLsbD_or, h, Bool.true_or]
  · rw [setDd_of_ne _ hb, h]

theorem staDd_setDd (mem : GuestMem) (a : BitVec 64) : ((mem.setDd a).tdesc a).staDd = true := by
  have hbyte : ((mem.setDd a).tdesc a).byte 12 = mem (a + 12) ||| 1 := setDd_self mem a
  rw [Tdesc.staDd, hbyte, BitVec.getLsbD_or]
  simp

/-- Descriptors are 16 bytes apart: a mark is not in another part of a descriptor. -/
theorem byte_setDd (mem : GuestMem) (s : DescShadow) (i j : Nat) {b : Fin 16} (hb : b ≠ 12) :
    ((mem.setDd (s.addr i)).tdesc (s.addr j)).byte b = (mem.tdesc (s.addr j)).byte b := by
  refine setDd_of_ne _ fun h => hb ?_
  have hval := congrArg BitVec.toNat h
  simp only [DescShadow.addr, BitVec.toNat_add, BitVec.toNat_ofNat] at hval
  have hbase := s.base.isLt
  have hlt := b.isLt
  refine Fin.ext ?_
  change b.val = 12
  rw [show (12 : BitVec 64).toNat = 12 from rfl] at hval
  omega

theorem reported_congr {td td' : Tdesc} (h : ∀ b, b ≠ 12 → td.byte b = td'.byte b) :
    td.reported = td'.reported := by
  have haddr : td.addr = td'.addr := by
    simp only [Tdesc.addr, h 0 (by decide), h 1 (by decide), h 2 (by decide), h 3 (by decide),
      h 4 (by decide), h 5 (by decide), h 6 (by decide), h 7 (by decide)]
  have hlen : td.len = td'.len := by
    simp only [Tdesc.len, h 8 (by decide), h 9 (by decide)]
  have hcmd := h 11 (by decide)
  rw [Tdesc.reported, Tdesc.reported, haddr, hlen, Tdesc.cmdRs, Tdesc.cmdDext, Tdesc.cmdEop, hcmd]
  rfl

theorem reported_setDd (mem : GuestMem) (s : DescShadow) (i j : Nat) :
    ((mem.setDd (s.addr i)).tdesc (s.addr j)).reported = (mem.tdesc (s.addr j)).reported :=
  reported_congr fun _ hb => byte_setDd mem s i j hb

/-- The mark of one descriptor comes before the others. -/
theorem Marked.step {visited : Nat → Prop} {i : Nat} {mem mem' : GuestMem}
    (h : Marked s (if (mem.tdesc (s.addr i)).reported then mem.setDd (s.addr i) else mem) mem'
      visited) : Marked s mem mem' fun j => j = i ∨ visited j := by
  by_cases hrep : (mem.tdesc (s.addr i)).reported = true
  · rw [if_pos hrep] at h
    refine ⟨fun j hj hjrep => ?_, fun a ha => ?_, fun a k hk => ?_, fun a ha => ?_⟩
    · rcases hj with rfl | hj
      · exact h.keeps _ (staDd_setDd mem (s.addr j))
      · exact h.marks j hj (by rw [reported_setDd, hjrep])
    · rw [h.others a fun j hj hjrep => ha j (.inr hj) (by rw [← reported_setDd mem s i, hjrep]),
        setDd_of_ne _ (ha i (.inl rfl) hrep)]
    · rw [h.bits a k hk, setDd_bits _ _ _ hk]
    · exact h.keeps a (setDd_keeps _ _ _ ha)
  · rw [if_neg hrep] at h
    refine ⟨fun j hj hjrep => ?_, fun a ha => ?_, h.bits, h.keeps⟩
    · rcases hj with rfl | hj
      · exact absurd hjrep hrep
      · exact h.marks j hj hjrep
    · exact h.others a fun j hj => ha j (.inr hj)

theorem Marked.congr {visited visited' : Nat → Prop} {mem mem' : GuestMem}
    (h : Marked s mem mem' visited) (hv : ∀ i, visited i ↔ visited' i) :
    Marked s mem mem' visited' := by
  obtain rfl : visited = visited' := funext fun i => propext (hv i)
  exact h

theorem before_iff {i j : Nat} (h : i ≠ s.tail.toNat) :
    s.Before i j ↔ j = i ∨ s.Before (s.next i) j := by
  constructor
  · rintro (_ | ⟨_, hj⟩)
    · exact .inl rfl
    · exact .inr hj
  · rintro (rfl | hj)
    · exact .here h
    · exact .later h hj

theorem not_before_tail {j : Nat} (h : t.i = s.tail.toNat) : ¬s.Before t.i j := by
  rintro (⟨hne⟩ | ⟨hne, -⟩)
  · exact hne h
  · exact hne h

theorem transmit_marked {fuel : Nat} (h : transmit s fuel t = .done r) :
    r.i = s.tail.toNat ∧ Marked s t.mem r.mem (s.Before t.i) := by
  induction fuel generalizing t with
  | zero => cases h
  | succ fuel ih =>
    rcases transmit_done h with ⟨htail, rfl⟩ | ⟨n, d, hn, hne, -, hrest⟩
    · refine ⟨htail, fun i hi => absurd hi (not_before_tail htail), fun a _ => rfl,
        fun a k _ => rfl, fun a ha => ha⟩
    · obtain rfl : fuel = n := by omega
      obtain ⟨htail, hmarked⟩ := ih hrest
      exact ⟨htail, hmarked.step.congr fun j => (before_iff hne).symm⟩

/-- A guest's memory with one descriptor, at 0, that has no address. -/
def descMem (len dtyp cmd : BitVec 8) : GuestMem := fun a =>
  if a = 8 then len else if a = 10 then dtyp else if a = 11 then cmd else 0

/-- A driver that has taken nothing yet. -/
def freshData2 (mss : BitVec 16) (paylen : Nat) : Data2 where
  buf := fun _ => 0
  len := 0
  len_le := Nat.zero_le _
  dext1Ixsm := false
  dext1Txsm := false
  dext0 :=
    { tucss := 34, tucso := 50, tucse := 0, ipcss := 14, ipcso := 24, ipcse := 33, mss := mss
      hdrlen := 0, paylen := paylen, ip := true, tcp := true }
  tseFirst := false
  tseTcpfin := false
  tseTcppsh := false
  tseIplen := 0
  tseIpchecksum := 0
  tseTcpchecksum := 0
  recvvirt := true
  packets := []

/-- The loop comes out, without a write past the packet buffer, and every descriptor before the
tail is marked as done. -/
def MarksAll (s : DescShadow) (mem : GuestMem) (d : Data2) : Prop :=
  ∃ fuel r, guestIsTransmitting false 2 s mem d fuel = .done r ∧
    ∀ i, s.Before s.head.toNat i → (r.mem.tdesc (s.addr i)).staDd = true

end OnDemandVirt.Net.Pro1000
