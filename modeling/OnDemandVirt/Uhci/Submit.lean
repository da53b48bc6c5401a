import OnDemandVirt.Uhci.Buffers
import Mathlib.Data.List.Basic
import Mathlib.Algebra.GroupWithZero.Nat

/-!
# Transfers of the VMM

`prepare_buffer_tds` cuts a buffer into TDs, from the last one to the first, and
`uhci_fixup_toggles` sets their data toggles. The size of the packets comes from the device, and
is used as it is: a division by 0 is `none`, and lengths above 2047 are stored modulo 2048.
-/

namespace OnDemandVirt.Uhci

/-- `struct uhci_td_meta`; its `next` is the rest of the list that it is in. -/
structure TdMeta where
  td : Td
  tdPhys : BitVec 64
  statusCopy : BitVec 32
  tokenCopy : BitVec 32
deriving DecidableEq

/-- What is read of a `struct usb_endpoint_descriptor` for a token. -/
structure Endpoint where
  bEndpointAddress : BitVec 8

def tdTokenPidIn : BitVec 32 := 0x69
def tdTokenPidOut : BitVec 32 := 0xe1
def tdTokenDt1Toggle : BitVec 32 := 1 <<< 19

def tdTokenEndpoint (ep : BitVec 8) : BitVec 32 := (ep &&& 0x0f).setWidth 32 <<< 15

def tdTokenDevaddress (da : BitVec 8) : BitVec 32 := (da &&& 0x7f).setWidth 32 <<< 8

/-- `uhci_pid_from_ep`. -/
def uhciPidFromEp (epdesc : Endpoint) : BitVec 32 :=
  if epdesc.bEndpointAddress = 0x00 ∨ epdesc.bEndpointAddress &&& 0x80 ≠ 0 then tdTokenPidIn
  else tdTokenPidOut

/-- `uhci_td_explen`. -/
def uhciTdExplen (len : BitVec 16) : BitVec 32 :=
  if len ≠ 0 then (len.setWidth 32 - 1) <<< 21 else 0x07ff <<< 21

section

variable (tdPhys : Nat → BitVec 64) (deviceaddress : BitVec 8) (epdesc : Endpoint)
  (maxpktsz : Nat) (status : BitVec 32)

def bufferToken (pktsz : Nat) : BitVec 32 :=
  uhciTdExplen (BitVec.ofNat 16 pktsz) ||| tdTokenEndpoint epdesc.bEndpointAddress |||
    tdTokenDevaddress deviceaddress ||| uhciPidFromEp epdesc

/-- `link` of a TD that is put ahead of others. -/
def linkTo : List TdMeta → BitVec 32
  | [] => tdLinkTe
  | next :: _ => next.tdPhys.setWidth 32

/-- The loop of `prepare_buffer_tds`, with the address of the TD that is made for each `i`. -/
def prepareLoop : (i : Nat) → (pktsz : Nat) → (bufPhys : BitVec 32) → List TdMeta → List TdMeta
  | 0, _, _, next => next
  | i + 1, pktsz, bufPhys, next =>
    let token := bufferToken deviceaddress epdesc pktsz
    let bufPhys := bufPhys - BitVec.ofNat 32 maxpktsz
    prepareLoop i maxpktsz bufPhys
      (⟨⟨linkTo next, status, token, bufPhys⟩, tdPhys (i + 1), status, token⟩ :: next)

/-- `prepare_buffer_tds`. -/
def prepareBufferTds (bufPhys : BitVec 32) (size : Nat) : Option (List TdMeta) :=
  if maxpktsz = 0 then none
  else
    let nTd := size / maxpktsz
    let pktsz := size % maxpktsz
    let (nTd, pktsz) := if pktsz = 0 then (nTd, maxpktsz) else (nTd + 1, pktsz)
    let (nTd, pktsz) := if size = 0 then (nTd + 1, 0) else (nTd, pktsz)
    some (prepareLoop tdPhys deviceaddress epdesc maxpktsz status nTd pktsz
      (bufPhys + BitVec.ofNat 32 (maxpktsz * nTd)) [])

end

/-- `uhci_fixup_toggles`: the TDs, and what is returned. -/
def uhciFixupToggles : List TdMeta → BitVec 32 → List TdMeta × BitVec 32
  | [], toggle => ([], toggle)
  | tdm :: next, toggle =>
    let r := uhciFixupToggles next (toggle ^^^ tdTokenDt1Toggle)
    ({ tdm with td := { tdm.td with token := tdm.td.token ||| toggle } } :: r.1, r.2)

/-! ### What the TDs should be -/

def TdMeta.length (tdm : TdMeta) : Nat := tdLength tdm.td.token

/-- The data toggle. -/
def TdMeta.dt1 (tdm : TdMeta) : Bool := tdm.td.token.getLsbD 19

/-- Each TD is linked to the next one, and the last to none. -/
def Chained : List TdMeta → Prop
  | [] => True
  | tdm :: next => tdm.td.link = linkTo next ∧ Chained next

/-- The buffers follow one another from `a` to `b`. -/
def Tiled : BitVec 32 → List TdMeta → BitVec 32 → Prop
  | a, [], b => a = b
  | a, tdm :: next, b => tdm.td.buffer = a ∧ Tiled (a + BitVec.ofNat 32 tdm.length) next b

def toggleWord (t : Bool) : BitVec 32 := if t then tdTokenDt1Toggle else 0

/-- A transfer of a buffer, whose toggles begin with `t`, and the toggle that is due next. -/
structure Transfer (maxpktsz : Nat) (buffer : BitVec 32) (size : Nat) (t : Bool)
    (tds : List TdMeta) (toggle : BitVec 32) : Prop where
  ne_nil : tds ≠ []
  chained : Chained tds
  tiled : Tiled buffer tds (buffer + BitVec.ofNat 32 size)
  sum : (tds.map TdMeta.length).sum = size
  full : ∀ len ∈ (tds.map TdMeta.length).dropLast, len = maxpktsz
  last : ∀ len ∈ (tds.map TdMeta.length).getLast?, len ≤ maxpktsz ∧ (len = 0 → tds.length = 1)
  alternates : ∀ (i : Nat) (tdm : TdMeta), tds[i]? = some tdm → tdm.dt1 = (t ^^ decide (i % 2 = 1))
  returned : toggle = toggleWord (t ^^ decide (tds.length % 2 = 1))

/-! ### Tokens -/

section

variable (deviceaddress : BitVec 8) (epdesc : Endpoint)

/-- What a token holds below the toggle. -/
def addressing : BitVec 32 :=
  tdTokenEndpoint epdesc.bEndpointAddress ||| tdTokenDevaddress deviceaddress |||
    uhciPidFromEp epdesc

theorem bufferToken_eq (pktsz : Nat) : bufferToken deviceaddress epdesc pktsz =
    uhciTdExplen (BitVec.ofNat 16 pktsz) ||| addressing deviceaddress epdesc := by
  unfold bufferToken addressing
  rw [BitVec.or_assoc, BitVec.or_assoc, BitVec.or_assoc]

theorem addressing_lt : (addressing deviceaddress epdesc).toNat < 2 ^ 19 := by
  have hep : (tdTokenEndpoint epdesc.bEndpointAddress).toNat < 2 ^ 19 := by
    have hle : epdesc.bEndpointAddress.toNat &&& 15 ≤ 15 := Nat.and_le_right
    rw [tdTokenEndpoint, BitVec.toNat_shiftLeft, BitVec.toNat_setWidth, BitVec.toNat_and,
      Nat.shiftLeft_eq]
    change (epdesc.bEndpointAddress.toNat &&& 15) % 2 ^ 32 * 2 ^ 15 % 2 ^ 32 < 2 ^ 19
    omega
  have hda : (tdTokenDevaddress deviceaddress).toNat < 2 ^ 19 := by
    have hle : deviceaddress.toNat &&& 127 ≤ 127 := Nat.and_le_right
    rw [tdTokenDevaddress, BitVec.toNat_shiftLeft, BitVec.toNat_setWidth, BitVec.toNat_and,
      Nat.shiftLeft_eq]
    change (deviceaddress.toNat &&& 127) % 2 ^ 32 * 2 ^ 8 % 2 ^ 32 < 2 ^ 19
    omega
  have hpid : (uhciPidFromEp epdesc).toNat < 2 ^ 19 := by
    unfold uhciPidFromEp
    split
    · decide
    · decide
  rw [addressing, BitVec.toNat_or, BitVec.toNat_or]
  exact Nat.or_lt_two_pow (Nat.or_lt_two_pow hep hda) hpid

/-- The length field holds a length modulo 2048. -/
theorem tdLength_uhciTdExplen (len : BitVec 16) :
    tdLength (uhciTdExplen len) = len.toNat % 2048 := by
  unfold uhciTdExplen tdLength
  split
  · next hne =>
    have hpos : len.toNat ≠ 0 := fun h => hne (BitVec.eq_of_toNat_eq h)
    have hlt := len.isLt
    have hsub : (len.setWidth 32 - 1).toNat = len.toNat - 1 := by
      rw [BitVec.toNat_sub, BitVec.toNat_setWidth]
      change (2 ^ 32 - 1 + len.toNat % 2 ^ 32) % 2 ^ 32 = _
      omega
    rw [BitVec.toNat_ushiftRight, BitVec.toNat_shiftLeft, hsub, Nat.shiftLeft_eq,
      Nat.shiftRight_eq_div_pow]
    omega
  · next heq =>
    rw [not_not.mp heq]
    rfl

theorem tdLength_or {x y : BitVec 32} (hy : y.toNat < 2 ^ 21) :
    tdLength (x ||| y) = tdLength x := by
  have hzero : y >>> 21 = 0#32 := by
    apply BitVec.eq_of_toNat_eq
    rw [BitVec.toNat_ushiftRight, Nat.shiftRight_eq_div_pow]
    exact Nat.div_eq_of_lt hy
  rw [tdLength, tdLength, BitVec.ushiftRight_or_distrib, hzero, BitVec.or_zero]

theorem tdLength_bufferToken (pktsz : Nat) :
    tdLength (bufferToken deviceaddress epdesc pktsz) = pktsz % 2048 := by
  have hlt := addressing_lt deviceaddress epdesc
  rw [bufferToken_eq, tdLength_or (by omega), tdLength_uhciTdExplen, BitVec.toNat_ofNat]
  omega

theorem dt1_bufferToken (pktsz : Nat) :
    (bufferToken deviceaddress epdesc pktsz).getLsbD 19 = false := by
  have hexplen : (uhciTdExplen (BitVec.ofNat 16 pktsz)).getLsbD 19 = false := by
    unfold uhciTdExplen
    split
    · rw [BitVec.getLsbD_shiftLeft]
      rfl
    · rfl
  have haddr : (addressing deviceaddress epdesc).getLsbD 19 = false :=
    Nat.testBit_lt_two_pow (addressing_lt deviceaddress epdesc)
  rw [bufferToken_eq, BitVec.getLsbD_or, hexplen, haddr]
  rfl

end

/-! ### The TDs as they are made -/

section

variable {tdPhys : Nat → BitVec 64} {deviceaddress : BitVec 8} {epdesc : Endpoint}
  {maxpktsz : Nat} {status : BitVec 32} {next : List TdMeta}

theorem lengths_prepareLoop (i : Nat) (bufPhys : BitVec 32) :
    (prepareLoop tdPhys deviceaddress epdesc maxpktsz status i maxpktsz bufPhys next).map
      TdMeta.length = List.replicate i (maxpktsz % 2048) ++ next.map TdMeta.length := by
  induction i generalizing bufPhys next with
  | zero => rfl
  | succ i ih =>
    rw [prepareLoop, ih, List.map_cons, List.replicate_succ', List.append_assoc]
    congr 2
    exact tdLength_bufferToken deviceaddress epdesc maxpktsz

theorem chained_prepareLoop (h : Chained next) (i pktsz : Nat) (bufPhys : BitVec 32) :
    Chained (prepareLoop tdPhys deviceaddress epdesc maxpktsz status i pktsz bufPhys next) := by
  induction i generalizing pktsz bufPhys next with
  | zero => exact h
  | succ i ih =>
    rw [prepareLoop]
    refine ih ?_ maxpktsz _
    exact ⟨rfl, h⟩

theorem dt1_prepareLoop (h : ∀ tdm ∈ next, tdm.dt1 = false) (i pktsz : Nat)
    (bufPhys : BitVec 32) :
    ∀ tdm ∈ prepareLoop tdPhys deviceaddress epdesc maxpktsz status i pktsz bufPhys next,
      tdm.dt1 = false := by
  induction i generalizing pktsz bufPhys next with
  | zero => exact h
  | succ i ih =>
    refine ih (fun tdm htdm => ?_) maxpktsz _
    rcases List.mem_cons.mp htdm with rfl | htdm
    · exact dt1_bufferToken deviceaddress epdesc pktsz
    · exact h tdm htdm

theorem tiled_prepareLoop {a b : BitVec 32} (h : Tiled a next b) {i : Nat}
    (hi : maxpktsz < 2048 ∨ i = 0) :
    Tiled (a - BitVec.ofNat 32 (maxpktsz * i))
      (prepareLoop tdPhys deviceaddress epdesc maxpktsz status i maxpktsz a next) b := by
  induction i generalizing a next with
  | zero =>
    rw [Nat.mul_zero, BitVec.sub_zero]
    exact h
  | succ i ih =>
    have hlt : maxpktsz < 2048 := hi.resolve_right (Nat.succ_ne_zero i)
    have hsub : a - BitVec.ofNat 32 (maxpktsz * (i + 1)) =
        a - BitVec.ofNat 32 maxpktsz - BitVec.ofNat 32 (maxpktsz * i) := by
      rw [Nat.mul_succ, BitVec.ofNat_add, BitVec.sub_sub, BitVec.add_comm]
    rw [hsub, prepareLoop]
    refine ih ⟨rfl, ?_⟩ (.inl hlt)
    have hlen : tdLength (bufferToken deviceaddress epdesc maxpktsz) = maxpktsz := by
      rw [tdLength_bufferToken, Nat.mod_eq_of_lt hlt]
    change Tiled (a - BitVec.ofNat 32 maxpktsz +
      BitVec.ofNat 32 (tdLength (bufferToken deviceaddress epdesc maxpktsz))) next b
    rw [hlen, BitVec.sub_add_cancel]
    exact h

variable (tdPhys deviceaddress epdesc status) in
/-- How a size is cut. -/
theorem exists_prepareBufferTds (hm : maxpktsz ≠ 0) (bufPhys : BitVec 32) (size : Nat) :
    ∃ k r, size = maxpktsz * k + r ∧ r ≤ maxpktsz ∧ (r = 0 → k = 0) ∧
      prepareBufferTds tdPhys deviceaddress epdesc maxpktsz status bufPhys size =
        some (prepareLoop tdPhys deviceaddress epdesc maxpktsz status (k + 1) r
          (bufPhys + BitVec.ofNat 32 (maxpktsz * (k + 1))) []) := by
  have hdiv := Nat.div_add_mod size maxpktsz
  have hmod := Nat.mod_lt size (Nat.pos_of_ne_zero hm)
  unfold prepareBufferTds
  rw [if_neg hm]
  dsimp only
  by_cases hsize : size = 0
  · refine ⟨0, 0, hsize, Nat.zero_le _, fun _ => rfl, ?_⟩
    simp [hsize]
  · by_cases hzero : size % maxpktsz = 0
    · obtain ⟨k, hk⟩ : ∃ k, size / maxpktsz = k + 1 := by
        refine Nat.exists_eq_succ_of_ne_zero fun hq => hsize ?_
        rw [← hdiv, hq, hzero, Nat.mul_zero]
      refine ⟨k, maxpktsz, ?_, Nat.le_refl _, fun h => absurd h hm, ?_⟩
      · rw [← hdiv, hk, hzero, Nat.mul_succ, Nat.add_zero]
      · simp [hsize, hzero, hk]
    · refine ⟨size / maxpktsz, size % maxpktsz, hdiv.symm, hmod.le, fun h => absurd h hzero, ?_⟩
      simp [hsize, hzero]

end

/-! ### The toggles -/

theorem toggleWord_xor (t : Bool) : toggleWord t ^^^ tdTokenDt1Toggle = toggleWord (!t) := by
  cases t
  · rfl
  · rfl

theorem toggleWord_lt (t : Bool) : (toggleWord t).toNat < 2 ^ 21 := by
  cases t
  · decide
  · decide

theorem linkTo_uhciFixupToggles (tds : List TdMeta) (toggle : BitVec 32) :
    linkTo (uhciFixupToggles tds toggle).1 = linkTo tds := by
  cases tds with
  | nil => rfl
  | cons tdm tds => rfl

theorem chained_uhciFixupToggles {tds : List TdMeta} (h : Chained tds) (toggle : BitVec 32) :
    Chained (uhciFixupToggles tds toggle).1 := by
  induction tds generalizing toggle with
  | nil => trivial
  | cons tdm tds ih =>
    refine ⟨?_, ih h.2 _⟩
    rw [linkTo_uhciFixupToggles]
    exact h.1

theorem length_fixed (tdm : TdMeta) (t : Bool) :
    TdMeta.length { tdm with td := { tdm.td with token := tdm.td.token ||| toggleWord t } } =
      tdm.length :=
  tdLength_or (toggleWord_lt t)

theorem lengths_uhciFixupToggles (tds : List TdMeta) (t : Bool) :
    (uhciFixupToggles tds (toggleWord t)).1.map TdMeta.length = tds.map TdMeta.length := by
  induction tds generalizing t with
  | nil => rfl
  | cons tdm tds ih =>
    rw [uhciFixupToggles, toggleWord_xor, List.map_cons, ih, length_fixed]
    rfl

theorem tiled_uhciFixupToggles {a b : BitVec 32} {tds : List TdMeta} (h : Tiled a tds b)
    (t : Bool) : Tiled a (uhciFixupToggles tds (toggleWord t)).1 b := by
  induction tds generalizing a t with
  | nil => exact h
  | cons tdm tds ih =>
    rw [uhciFixupToggles, toggleWord_xor]
    refine ⟨h.1, ?_⟩
    rw [length_fixed]
    exact ih h.2 (!t)

theorem dt1_uhciFixupToggles {tds : List TdMeta} (h : ∀ tdm ∈ tds, tdm.dt1 = false) (t : Bool)
    {i : Nat} {tdm : TdMeta} (hi : (uhciFixupToggles tds (toggleWord t)).1[i]? = some tdm) :
    tdm.dt1 = (t ^^ decide (i % 2 = 1)) := by
  induction tds generalizing t i with
  | nil => cases hi
  | cons td tds ih =>
    rw [uhciFixupToggles, toggleWord_xor] at hi
    cases i with
    | zero =>
      obtain rfl := Option.some.inj hi
      have hclear : td.td.token.getLsbD 19 = false := h td List.mem_cons_self
      rw [TdMeta.dt1, BitVec.getLsbD_or, hclear]
      cases t
      · rfl
      · rfl
    | succ i =>
      have hrest := ih (fun tdm htdm => h tdm (List.mem_cons_of_mem _ htdm)) (!t) hi
      rw [hrest]
      rcases Nat.mod_two_eq_zero_or_one i with hpar | hpar
      · have hsucc : (i + 1) % 2 = 1 := by omega
        simp [hpar, hsucc]
      · have hsucc : (i + 1) % 2 = 0 := by omega
        simp [hpar, hsucc]

theorem returned_uhciFixupToggles (tds : List TdMeta) (t : Bool) :
    (uhciFixupToggles tds (toggleWord t)).2 = toggleWord (t ^^ decide (tds.length % 2 = 1)) := by
  induction tds generalizing t with
  | nil => simp [uhciFixupToggles]
  | cons tdm tds ih =>
    rw [uhciFixupToggles, toggleWord_xor, ih, List.length_cons]
    rcases Nat.mod_two_eq_zero_or_one tds.length with hpar | hpar
    · have hsucc : (tds.length + 1) % 2 = 1 := by omega
      simp [hpar, hsucc]
    · have hsucc : (tds.length + 1) % 2 = 0 := by omega
      simp [hpar, hsucc]

/-! ### Transfers -/

section

variable {tdPhys : Nat → BitVec 64} {deviceaddress : BitVec 8} {epdesc : Endpoint}
  {maxpktsz size : Nat} {status buffer : BitVec 32} {t : Bool}

/-- What the two functions return is a transfer of the buffer. -/
def Submits (tdPhys : Nat → BitVec 64) (deviceaddress : BitVec 8) (epdesc : Endpoint)
    (maxpktsz : Nat) (status buffer : BitVec 32) (size : Nat) (t : Bool) : Prop :=
  ∃ tds, prepareBufferTds tdPhys deviceaddress epdesc maxpktsz status buffer size = some tds ∧
    Transfer maxpktsz buffer size t (uhciFixupToggles tds (toggleWord t)).1
      (uhciFixupToggles tds (toggleWord t)).2

theorem lengths_cut (k r : Nat) (bufPhys : BitVec 32) :
    (prepareLoop tdPhys deviceaddress epdesc maxpktsz status (k + 1) r bufPhys []).map
      TdMeta.length = List.replicate k (maxpktsz % 2048) ++ [r % 2048] := by
  rw [prepareLoop, lengths_prepareLoop]
  congr 1
  exact congrArg (fun n => [n]) (tdLength_bufferToken deviceaddress epdesc r)

theorem tiled_cut {k r : Nat} (hsize : size = maxpktsz * k + r) (hk : maxpktsz < 2048 ∨ k = 0)
    (hr : r < 2048) :
    Tiled buffer (prepareLoop tdPhys deviceaddress epdesc maxpktsz status (k + 1) r
      (buffer + BitVec.ofNat 32 (maxpktsz * (k + 1))) []) (buffer + BitVec.ofNat 32 size) := by
  have hstart : buffer + BitVec.ofNat 32 (maxpktsz * (k + 1)) - BitVec.ofNat 32 maxpktsz =
      buffer + BitVec.ofNat 32 (maxpktsz * k) := by
    rw [Nat.mul_succ, BitVec.ofNat_add, ← BitVec.add_assoc, BitVec.add_sub_cancel]
  have hend : buffer + BitVec.ofNat 32 (maxpktsz * k) + BitVec.ofNat 32 r =
      buffer + BitVec.ofNat 32 size := by
    rw [hsize, BitVec.ofNat_add, BitVec.add_assoc]
  rw [prepareLoop, hstart]
  set lastTd : TdMeta := ⟨⟨linkTo [], status, bufferToken deviceaddress epdesc r,
    buffer + BitVec.ofNat 32 (maxpktsz * k)⟩, tdPhys (k + 1), status,
    bufferToken deviceaddress epdesc r⟩ with hlast
  have hlen : lastTd.length = r := by
    rw [hlast, TdMeta.length, tdLength_bufferToken, Nat.mod_eq_of_lt hr]
  have hone : Tiled (buffer + BitVec.ofNat 32 (maxpktsz * k)) [lastTd]
      (buffer + BitVec.ofNat 32 size) := by
    refine ⟨rfl, ?_⟩
    rw [hlen]
    exact hend
  have htiled : Tiled (buffer + BitVec.ofNat 32 (maxpktsz * k) - BitVec.ofNat 32 (maxpktsz * k))
      (prepareLoop tdPhys deviceaddress epdesc maxpktsz status k maxpktsz
        (buffer + BitVec.ofNat 32 (maxpktsz * k)) [lastTd]) (buffer + BitVec.ofNat 32 size) :=
    tiled_prepareLoop hone hk
  rwa [BitVec.add_sub_cancel] at htiled

/-- A size whose packets have lengths that the token can hold. -/
theorem transfer_of_lengths {k r : Nat} (hsize : size = maxpktsz * k + r) (hr : r ≤ maxpktsz)
    (hzero : r = 0 → k = 0) (hk : maxpktsz < 2048 ∨ k = 0) (hr' : r < 2048) :
    Transfer maxpktsz buffer size t
      (uhciFixupToggles (prepareLoop tdPhys deviceaddress epdesc maxpktsz status (k + 1) r
        (buffer + BitVec.ofNat 32 (maxpktsz * (k + 1))) []) (toggleWord t)).1
      (uhciFixupToggles (prepareLoop tdPhys deviceaddress epdesc maxpktsz status (k + 1) r
        (buffer + BitVec.ofNat 32 (maxpktsz * (k + 1))) []) (toggleWord t)).2 := by
  set tds := prepareLoop tdPhys deviceaddress epdesc maxpktsz status (k + 1) r
    (buffer + BitVec.ofNat 32 (maxpktsz * (k + 1))) [] with htds
  have hlengths : tds.map TdMeta.length = List.replicate k maxpktsz ++ [r] := by
    rw [htds, lengths_cut, Nat.mod_eq_of_lt hr']
    rcases hk with hk | rfl
    · rw [Nat.mod_eq_of_lt hk]
    · rfl
  have hfixed : (uhciFixupToggles tds (toggleWord t)).1.map TdMeta.length =
      List.replicate k maxpktsz ++ [r] := (lengths_uhciFixupToggles tds t).trans hlengths
  have hcount : (uhciFixupToggles tds (toggleWord t)).1.length = k + 1 := by
    have hlen := congrArg List.length hfixed
    rwa [List.length_map, List.length_append, List.length_replicate, List.length_singleton] at hlen
  have hcount' : tds.length = k + 1 := by
    have hlen := congrArg List.length hlengths
    rwa [List.length_map, List.length_append, List.length_replicate, List.length_singleton] at hlen
  constructor
  · exact List.ne_nil_of_length_pos (hcount ▸ Nat.succ_pos k)
  · exact chained_uhciFixupToggles (chained_prepareLoop (show Chained [] from trivial) _ _ _) _
  · exact tiled_uhciFixupToggles (tiled_cut hsize hk hr') t
  · rw [hfixed, List.sum_append, List.sum_replicate_nat, List.sum_singleton,
      hsize, Nat.mul_comm]
  · rw [hfixed, List.dropLast_concat]
    exact fun len hlen => (List.mem_replicate.mp hlen).2
  · rw [hfixed, List.getLast?_concat]
    rintro len hlen
    obtain rfl := Option.some.inj hlen
    exact ⟨hr, fun h => by rw [hcount, hzero h]⟩
  · exact fun i tdm hi =>
      dt1_uhciFixupToggles (dt1_prepareLoop (fun _ h => absurd h List.not_mem_nil) _ _ _) t hi
  · rw [returned_uhciFixupToggles, hcount, hcount']

/-- Packets above 2047 bytes are stored with the wrong lengths, unless the buffer is smaller. -/
theorem lt_of_submits (hm : maxpktsz ≠ 0)
    (h : Submits tdPhys deviceaddress epdesc maxpktsz status buffer size t) :
    maxpktsz < 2048 ∨ size < 2048 := by
  obtain ⟨tds, hprepare, htransfer⟩ := h
  obtain ⟨k, r, hsize, hr, -, hcut⟩ := exists_prepareBufferTds tdPhys deviceaddress epdesc
    status hm buffer size
  obtain rfl := Option.some.inj (hprepare.symm.trans hcut)
  have hlengths := (lengths_uhciFixupToggles (prepareLoop tdPhys deviceaddress epdesc maxpktsz
    status (k + 1) r (buffer + BitVec.ofNat 32 (maxpktsz * (k + 1))) []) t).trans
    (lengths_cut k r _)
  have hfull := htransfer.full
  have hsum := htransfer.sum
  rw [hlengths] at hfull hsum
  rw [List.dropLast_concat] at hfull
  rw [List.sum_append, List.sum_singleton] at hsum
  by_contra hge
  cases k with
  | zero =>
    -- the only TD
    rw [List.replicate_zero, List.sum_nil] at hsum
    omega
  | succ k =>
    have hone := hfull (maxpktsz % 2048) (List.mem_replicate.mpr ⟨Nat.succ_ne_zero k, rfl⟩)
    omega

/-- A buffer is submitted as it should be when the packet size is not 0, and the lengths of the
packets fit in their 11 bits. -/
theorem submits_iff (tdPhys : Nat → BitVec 64) (deviceaddress : BitVec 8) (epdesc : Endpoint)
    (maxpktsz size : BitVec 16) (status buffer : BitVec 32) (t : Bool) :
    Submits tdPhys deviceaddress epdesc maxpktsz.toNat status buffer size.toNat t ↔
      maxpktsz ≠ 0 ∧ (maxpktsz.toNat < 2048 ∨ size.toNat < 2048) := by
  constructor
  · intro h
    have hm : maxpktsz ≠ 0 := by
      rintro rfl
      obtain ⟨tds, hprepare, -⟩ := h
      cases hprepare
    exact ⟨hm, lt_of_submits (fun hz => hm (BitVec.eq_of_toNat_eq hz)) h⟩
  · rintro ⟨hm, hlt⟩
    have hm : maxpktsz.toNat ≠ 0 := fun hz => hm (BitVec.eq_of_toNat_eq hz)
    obtain ⟨k, r, hsize, hr, hzero, hcut⟩ := exists_prepareBufferTds tdPhys deviceaddress epdesc
      status hm buffer size.toNat
    have hk : maxpktsz.toNat < 2048 ∨ k = 0 := by
      by_contra hk
      obtain ⟨hge, hk⟩ := not_or.mp hk
      have hle : maxpktsz.toNat ≤ maxpktsz.toNat * k :=
        Nat.le_mul_of_pos_right _ (Nat.pos_of_ne_zero hk)
      omega
    have hr' : r < 2048 := by omega
    exact ⟨_, hcut, transfer_of_lengths hsize hr hzero hk hr'⟩

/-- A device that reports a packet size of 0 has the VMM divide by 0. -/
theorem not_submits : ¬ ∀ (tdPhys : Nat → BitVec 64) (deviceaddress : BitVec 8)
    (epdesc : Endpoint) (maxpktsz size : BitVec 16) (status buffer : BitVec 32) (t : Bool),
    Submits tdPhys deviceaddress epdesc maxpktsz.toNat status buffer size.toNat t := by
  intro h
  obtain ⟨tds, hprepare, -⟩ := h (fun _ => 0) 1 ⟨0x81⟩ 0 8 0 0x1000 false
  cases hprepare

end

end OnDemandVirt.Uhci
