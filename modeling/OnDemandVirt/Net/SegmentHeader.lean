import OnDemandVirt.Net.Pro1000

/-!
# The header of a segment

What `tse_set_header`, the checksums and `tse_set_next_header` do to the words of the header that
tell the segments apart, when the header has the IP header and the TCP header in it, one behind the
other, and the checksums go elsewhere in it.
-/

namespace OnDemandVirt.Net.Pro1000

open OnDemandVirt.Lib

/-! ### Big-endian words -/

def be16 (b : ByteMem) (a : Nat) : BitVec 16 := b a ++ b (a + 1)

def be32 (b : ByteMem) (a : Nat) : BitVec 32 := be16 b a ++ be16 b (a + 2)

theorem getLsbD_word (x y : BitVec 8) (i : Nat) :
    (x ++ y : BitVec 16).getLsbD i = if i < 8 then y.getLsbD i else x.getLsbD (i - 8) :=
  BitVec.getLsbD_append

theorem getLsbD_dword (x y : BitVec 16) (i : Nat) :
    (x ++ y : BitVec 32).getLsbD i = if i < 16 then y.getLsbD i else x.getLsbD (i - 16) :=
  BitVec.getLsbD_append

theorem bswap16_append (x y : BitVec 8) : bswap16 (x ++ y) = y ++ x := by
  apply BitVec.eq_of_getLsbD_eq
  intro i hi
  rw [bswap16, BitVec.getLsbD_or, BitVec.getLsbD_shiftLeft, BitVec.getLsbD_ushiftRight,
    getLsbD_word, getLsbD_word, getLsbD_word]
  by_cases h : i < 8
  · simp [h, show ¬8 + i < 8 by omega]
  · simp [h, hi, show i - 8 < 8 by omega, show ¬8 + i < 8 by omega,
      BitVec.getLsbD_of_ge x i (by omega)]

theorem bswap32_append (x y : BitVec 16) : bswap32 (x ++ y) = bswap16 y ++ bswap16 x := by
  have hlow : (x ++ y : BitVec 32).setWidth 16 = y := by
    apply BitVec.eq_of_getLsbD_eq
    intro i hi
    rw [BitVec.getLsbD_setWidth, getLsbD_dword]
    simp [hi]
  have hhigh : ((x ++ y : BitVec 32) >>> 16).setWidth 16 = x := by
    apply BitVec.eq_of_getLsbD_eq
    intro i hi
    rw [BitVec.getLsbD_setWidth, BitVec.getLsbD_ushiftRight, getLsbD_dword]
    simp [hi]
  rw [bswap32, hlow, hhigh]
  apply BitVec.eq_of_getLsbD_eq
  intro i hi
  rw [BitVec.getLsbD_or, BitVec.getLsbD_shiftLeft, BitVec.getLsbD_setWidth, BitVec.getLsbD_setWidth,
    getLsbD_dword]
  by_cases h : i < 16
  · simp [h, hi]
  · simp [h, hi, show i - 16 < 32 by omega, BitVec.getLsbD_of_ge (bswap16 x) i (by omega)]

theorem bswap16_load16 (b : ByteMem) (a : Nat) : bswap16 (load16 b a) = be16 b a :=
  bswap16_append _ _

theorem bswap32_load32 (b : ByteMem) (a : Nat) : bswap32 (load32 b a) = be32 b a := by
  rw [load32, bswap32_append, bswap16_load16, bswap16_load16, be32]

theorem append_extract (v : BitVec 16) : v.extractLsb' 8 8 ++ v.extractLsb' 0 8 = v := by
  apply BitVec.eq_of_getLsbD_eq
  intro i hi
  rw [getLsbD_word, BitVec.getLsbD_extractLsb', BitVec.getLsbD_extractLsb']
  by_cases h : i < 8
  · simp [h]
  · simp [h, show 8 + (i - 8) = i by omega, show i - 8 < 8 by omega]

theorem append_extract32 (v : BitVec 32) : v.extractLsb' 16 16 ++ v.extractLsb' 0 16 = v := by
  apply BitVec.eq_of_getLsbD_eq
  intro i hi
  rw [getLsbD_dword, BitVec.getLsbD_extractLsb', BitVec.getLsbD_extractLsb']
  by_cases h : i < 16
  · simp [h]
  · simp [h, show 16 + (i - 16) = i by omega, show i - 16 < 16 by omega]

theorem bswap16_bswap16 (v : BitVec 16) : bswap16 (bswap16 v) = v := by
  rw [← append_extract v, bswap16_append, bswap16_append]

theorem bswap32_bswap32 (v : BitVec 32) : bswap32 (bswap32 v) = v := by
  rw [← append_extract32 v, bswap32_append, bswap32_append, bswap16_bswap16, bswap16_bswap16]

section write

variable (b : ByteMem) {a c n : Nat} {bs : List (BitVec 8)}

theorem apply_write_of_disjoint (hn : bs.length = n) (h : c < a ∨ a + n ≤ c) :
    b.write a bs c = b c := by
  rcases h with h | h
  · exact ByteMem.write_apply_lt _ _ _ h
  · exact ByteMem.write_apply_ge _ _ _ (by omega)

theorem be16_write_of_disjoint (hn : bs.length = n) (h : c + 2 ≤ a ∨ a + n ≤ c) :
    be16 (b.write a bs) c = be16 b c := by
  rw [be16, apply_write_of_disjoint b hn (by omega), apply_write_of_disjoint b hn (by omega), be16]

theorem be32_write_of_disjoint (hn : bs.length = n) (h : c + 4 ≤ a ∨ a + n ≤ c) :
    be32 (b.write a bs) c = be32 b c := by
  rw [be32, be16_write_of_disjoint b hn (by omega), be16_write_of_disjoint b hn (by omega), be32]

theorem load16_write_bytes16 (b : ByteMem) (a : Nat) (v : BitVec 16) :
    load16 (b.write a (bytes16 v)) a = v := by
  have hlow := ByteMem.write_apply_add b a (bytes16 v) (i := 0) (by simp)
  have hhigh := ByteMem.write_apply_add b a (bytes16 v) (i := 1) (by simp)
  rw [Nat.add_zero] at hlow
  rw [load16, hlow, hhigh]
  exact append_extract v

theorem be16_write_bytes16 (b : ByteMem) (a : Nat) (v : BitVec 16) :
    be16 (b.write a (bytes16 (bswap16 v))) a = v := by
  rw [← bswap16_load16, load16_write_bytes16, bswap16_bswap16]

theorem load32_write_bytes32 (b : ByteMem) (a : Nat) (w : BitVec 32) :
    load32 (b.write a (bytes32 w)) a = w := by
  have h0 := ByteMem.write_apply_add b a (bytes32 w) (i := 0) (by simp)
  have h1 := ByteMem.write_apply_add b a (bytes32 w) (i := 1) (by simp)
  have h2 := ByteMem.write_apply_add b a (bytes32 w) (i := 2) (by simp)
  have h3 := ByteMem.write_apply_add b a (bytes32 w) (i := 3) (by simp)
  rw [Nat.add_zero] at h0
  rw [load32, load16, load16, h0, h1, h2, h3]
  exact (congrArg₂ (fun x y : BitVec 16 => x ++ y) (append_extract _) (append_extract _)).trans
    (append_extract32 w)

theorem be32_write_bytes32 (b : ByteMem) (a : Nat) (v : BitVec 32) :
    be32 (b.write a (bytes32 (bswap32 v))) a = v := by
  rw [← bswap32_load32, load32_write_bytes32, bswap32_bswap32]

theorem apply_write_singleton (b : ByteMem) (a : Nat) (x : BitVec 8) : b.write a [x] a = x := by
  have h := ByteMem.write_apply_add b a [x] (i := 0) (by simp)
  rwa [Nat.add_zero] at h

end write

/-! ### The words that tell segments apart -/

/-- The IP header is in the header, and the TCP header behind it. -/
structure Dext0.Placed (x : Dext0) : Prop where
  ip : x.ipcss.toNat + 12 ≤ x.hdrlen.toNat
  tcp : x.tcp = true → x.ipcss.toNat + 12 ≤ x.tucss.toNat ∧ x.tucss.toNat + 18 ≤ x.hdrlen.toNat

/-- A byte of the header apart from the words that tell segments apart. -/
def Dext0.Apart (x : Dext0) (q : Nat) : Prop :=
  q < x.hdrlen.toNat ∧ (q < x.ipcss.toNat + 2 ∨ x.ipcss.toNat + 6 ≤ q) ∧
    (x.tcp = true → (q < x.tucss.toNat + 4 ∨ x.tucss.toNat + 8 ≤ q) ∧ q ≠ x.tucss.toNat + 13)

/-- A checksum at an offset leaves these words and the payload alone. -/
def Dext0.ChecksumApart (x : Dext0) (cso : BitVec 8) : Prop :=
  cso = 0 ∨ x.Apart cso.toNat ∧ x.Apart (cso.toNat + 1)

/-- The checksums that are asked for do. -/
structure Data2.Options (d : Data2) : Prop where
  ixsm : d.dext1Ixsm = true → d.dext0.ChecksumApart d.dext0.ipcso
  txsm : d.dext1Txsm = true → d.dext0.ChecksumApart d.dext0.tucso

/-- The identification, the sequence number and the flags FIN and PSH. -/
structure SegmentHeader (x : Dext0) (id : BitVec 16) (seq : BitVec 32) (fin psh : Bool)
    (b : ByteMem) : Prop where
  ident : x.ip = true → be16 b (x.ipcss.toNat + 4) = id
  seq : x.tcp = true → be32 b (x.tucss.toNat + 4) = seq
  fin : x.tcp = true → (b (x.tucss.toNat + 13)).getLsbD 0 = fin
  psh : x.tcp = true → (b (x.tucss.toNat + 13)).getLsbD 3 = psh

/-- The payload, and the words that tell segments apart, are the same. -/
structure Alike (x : Dext0) (b b' : ByteMem) : Prop where
  payload : ∀ q, x.hdrlen.toNat ≤ q → b' q = b q
  iplen : be16 b' (x.ipcss.toNat + 2) = be16 b (x.ipcss.toNat + 2)
  ident : be16 b' (x.ipcss.toNat + 4) = be16 b (x.ipcss.toNat + 4)
  seq : x.tcp = true → be32 b' (x.tucss.toNat + 4) = be32 b (x.tucss.toNat + 4)
  flags : x.tcp = true → b' (x.tucss.toNat + 13) = b (x.tucss.toNat + 13)

variable {x : Dext0} {b b' : ByteMem} {d : Data2} {td : Tdesc}

theorem Alike.refl (x : Dext0) (b : ByteMem) : Alike x b b :=
  ⟨fun _ _ => rfl, rfl, rfl, fun _ => rfl, fun _ => rfl⟩

theorem Alike.trans {b'' : ByteMem} (h : Alike x b b') (h' : Alike x b' b'') : Alike x b b'' :=
  ⟨fun q hq => (h'.payload q hq).trans (h.payload q hq), h'.iplen.trans h.iplen,
    h'.ident.trans h.ident, fun ht => (h'.seq ht).trans (h.seq ht),
    fun ht => (h'.flags ht).trans (h.flags ht)⟩

theorem Alike.header {id : BitVec 16} {seq : BitVec 32} {fin psh : Bool} (h : Alike x b b')
    (hb : SegmentHeader x id seq fin psh b) : SegmentHeader x id seq fin psh b' :=
  ⟨fun hi => h.ident.trans (hb.ident hi), fun ht => (h.seq ht).trans (hb.seq ht),
    fun ht => by rw [h.flags ht, hb.fin ht], fun ht => by rw [h.flags ht, hb.psh ht]⟩

/-- A word that is written apart from them. -/
theorem alike_write {a : Nat} (v : BitVec 16) (h : x.Apart a) (h' : x.Apart (a + 1)) :
    Alike x b (b.write a (bytes16 v)) := by
  obtain ⟨hlt, hip, htcp⟩ := h
  obtain ⟨hlt', hip', htcp'⟩ := h'
  refine ⟨fun q hq => ?_, ?_, ?_, fun ht => ?_, fun ht => ?_⟩
  · exact apply_write_of_disjoint b (length_bytes16 v) (by omega)
  · exact be16_write_of_disjoint b (length_bytes16 v) (by omega)
  · exact be16_write_of_disjoint b (length_bytes16 v) (by omega)
  · have := htcp ht
    have := htcp' ht
    exact be32_write_of_disjoint b (length_bytes16 v) (by omega)
  · have := htcp ht
    have := htcp' ht
    exact apply_write_of_disjoint b (length_bytes16 v) (by omega)

theorem alike_checksummed (len : Nat) (css : BitVec 8) {cso : BitVec 8} (cse addval : BitVec 16)
    (h : x.ChecksumApart cso) : Alike x b (checksummed b len css cso cse addval) := by
  rw [checksummed]
  split
  · exact .refl x b
  next hgo =>
    have hapart := h.resolve_left fun hz => hgo (.inl hz)
    refine .trans ?_ (alike_write _ hapart.1 hapart.2)
    split
    · exact alike_write _ hapart.1 hapart.2
    · exact .refl x b

/-- The length in the IP header of a packet of `size` bytes. -/
def IplenOf (x : Dext0) (size : Nat) (b : ByteMem) : Prop :=
  if x.ip then be16 b (x.ipcss.toNat + 2) = BitVec.ofNat 16 size - x.ipcss.setWidth 16
  else be16 b (x.ipcss.toNat + 4) = BitVec.ofNat 16 size - x.ipcss.setWidth 16 - 40

theorem Alike.iplenOf {size : Nat} (h : Alike x b b') (hb : IplenOf x size b) :
    IplenOf x size b' := by
  rw [IplenOf] at hb ⊢
  rw [h.iplen, h.ident]
  exact hb

/-! ### A segment is finished -/

section headerSet

variable (hx : x.Placed) (last : Bool)

include hx

theorem headerSet_payload {q : Nat} (hq : x.hdrlen.toNat ≤ q) : headerSet x last b q = b q := by
  have hip := hx.ip
  have hfirst : ∀ v v', (if x.ip = true then b.write (x.ipcss.toNat + 2) (bytes16 v)
      else b.write (x.ipcss.toNat + 4) (bytes16 v')) q = b q := by
    intro v v'
    split
    · exact apply_write_of_disjoint b (length_bytes16 _) (by omega)
    · exact apply_write_of_disjoint b (length_bytes16 _) (by omega)
  rw [headerSet]
  split
  next htcp =>
    have := hx.tcp htcp.1
    rw [apply_write_of_disjoint _ (List.length_singleton) (by omega), hfirst]
  · exact hfirst _ _

theorem headerSet_iplen {size : Nat}
    (hsize : size = x.hdrlen.toNat + if last then x.paylen else x.mss.toNat) :
    IplenOf x size (headerSet x last b) := by
  have hip := hx.ip
  have hlen : segmentIplen x (if last then BitVec.ofNat 16 x.paylen else x.mss) =
      BitVec.ofNat 16 size - x.ipcss.setWidth 16 := by
    rw [segmentIplen, hsize]
    congr 1
    apply BitVec.eq_of_toNat_eq
    have hhdr := x.hdrlen.isLt
    have hmss := x.mss.isLt
    cases last
    · simp only [Bool.false_eq_true, if_false, BitVec.toNat_add, BitVec.toNat_ofNat,
        BitVec.toNat_setWidth]
      omega
    · simp only [if_true, BitVec.toNat_add, BitVec.toNat_ofNat, BitVec.toNat_setWidth]
      omega
  have hflag : ∀ (b : ByteMem) (v : BitVec 8) (a : Nat), a = x.ipcss.toNat + 2 ∨
      a = x.ipcss.toNat + 4 → x.tcp = true → be16 (b.write (x.tucss.toNat + 13) [v]) a = be16 b a := by
    intro b v a ha ht
    have := hx.tcp ht
    exact be16_write_of_disjoint b (List.length_singleton) (by omega)
  rw [IplenOf, headerSet, hlen]
  cases hi : x.ip
  · simp only [Bool.false_eq_true, if_false]
    split
    next ht => rw [hflag _ _ _ (.inr rfl) ht.1, be16_write_bytes16]
    · exact be16_write_bytes16 _ _ _
  · simp only [if_true]
    split
    next ht => rw [hflag _ _ _ (.inl rfl) ht.1, be16_write_bytes16]
    · exact be16_write_bytes16 _ _ _

theorem headerSet_header {id : BitVec 16} {seq : BitVec 32} {fin psh : Bool}
    (hb : SegmentHeader x id seq fin psh b) :
    SegmentHeader x id seq (last && fin) (last && psh) (headerSet x last b) := by
  have hip := hx.ip
  have hident : x.ip = true → be16 (headerSet x last b) (x.ipcss.toNat + 4) = id := by
    intro hi
    rw [headerSet]
    simp only [hi, if_true]
    split
    next ht =>
      have := hx.tcp ht.1
      rw [be16_write_of_disjoint _ (List.length_singleton) (by omega),
        be16_write_of_disjoint _ (length_bytes16 _) (by omega), hb.ident hi]
    · rw [be16_write_of_disjoint _ (length_bytes16 _) (by omega), hb.ident hi]
  refine ⟨hident, fun ht => ?_, fun ht => ?_, fun ht => ?_⟩
  all_goals
    have hplace := hx.tcp ht
    rw [headerSet]
  · have hseq : ∀ v v', be32 (if x.ip = true then b.write (x.ipcss.toNat + 2) (bytes16 v)
        else b.write (x.ipcss.toNat + 4) (bytes16 v')) (x.tucss.toNat + 4) = seq := by
      intro v v'
      split
      · rw [be32_write_of_disjoint _ (length_bytes16 _) (by omega), hb.seq ht]
      · rw [be32_write_of_disjoint _ (length_bytes16 _) (by omega), hb.seq ht]
    split
    · rw [be32_write_of_disjoint _ (List.length_singleton) (by omega), hseq]
    · exact hseq _ _
  all_goals
    have hflags : ∀ v v', (if x.ip = true then b.write (x.ipcss.toNat + 2) (bytes16 v)
        else b.write (x.ipcss.toNat + 4) (bytes16 v')) (x.tucss.toNat + 13) =
          b (x.tucss.toNat + 13) := by
      intro v v'
      split
      · exact apply_write_of_disjoint _ (length_bytes16 _) (by omega)
      · exact apply_write_of_disjoint _ (length_bytes16 _) (by omega)
    cases last
    · simp only [ht, Bool.false_eq_true, not_false_eq_true, and_self, if_true, Bool.false_and,
        apply_write_singleton, BitVec.getLsbD_and]
      rw [show (~~~9 : BitVec 8) = 246 from rfl]
      simp
    · simp only [not_true_eq_false, and_false, if_false, Bool.true_and, if_true, hflags]
      first
        | exact hb.fin ht
        | exact hb.psh ht

end headerSet

/-- The buffer with a finished segment in it. -/
theorem alike_finished (htse : td.dcmdTse = true) (hopt : d.Options) :
    Alike d.dext0 (headerSet d.dext0 d.dextlast d.buf) (finished td d) := by
  have htx : ∀ (b : ByteMem) v, Alike d.dext0 b (if d.dext1Txsm = true then
      checksummed b (d.packetSize td.dcmdTse) d.dext0.tucss d.dext0.tucso d.dext0.tucse v else b) := by
    intro b v
    split
    next h => exact alike_checksummed _ _ _ _ (hopt.txsm h)
    · exact .refl _ b
  have hix : ∀ b : ByteMem, Alike d.dext0 b (if d.dext1Ixsm = true then
      checksummed b (d.packetSize td.dcmdTse) d.dext0.ipcss d.dext0.ipcso d.dext0.ipcse 0 else b) := by
    intro b
    split
    next h => exact alike_checksummed _ _ _ _ (hopt.ixsm h)
    · exact .refl _ b
  rw [finished]
  simp only [htse, if_true] at hix htx ⊢
  exact (hix _).trans (htx _ _)

/-! ### The next header -/

theorem finPsh_bits (d : Data2) :
    d.finPsh.getLsbD 0 = d.tseTcpfin ∧ d.finPsh.getLsbD 3 = d.tseTcppsh := by
  rw [Data2.finPsh]
  cases d.tseTcpfin <;> cases d.tseTcppsh <;> decide

section headerNext

variable (hx : d.dext0.Placed) (b : ByteMem)

include hx

theorem ipRestored_payload {q : Nat} (hq : d.dext0.hdrlen.toNat ≤ q) : ipRestored d b q = b q := by
  have hip := hx.ip
  rw [ipRestored]
  split
  · rw [apply_write_of_disjoint _ (length_bytes16 _) (by omega),
      apply_write_of_disjoint _ (length_bytes16 _) (by omega)]
  · exact apply_write_of_disjoint _ (length_bytes16 _) (by omega)

theorem ipRestored_header {id : BitVec 16} {seq : BitVec 32} {fin psh : Bool}
    (hb : SegmentHeader d.dext0 id seq fin psh b) :
    SegmentHeader d.dext0 id seq fin psh (ipRestored d b) := by
  have hflag : d.dext0.tcp = true →
      ipRestored d b (d.dext0.tucss.toNat + 13) = b (d.dext0.tucss.toNat + 13) := by
    intro ht
    have := hx.tcp ht
    rw [ipRestored]
    split
    · rw [apply_write_of_disjoint _ (length_bytes16 _) (by omega),
        apply_write_of_disjoint _ (length_bytes16 _) (by omega)]
    · exact apply_write_of_disjoint _ (length_bytes16 _) (by omega)
  refine ⟨fun hi => ?_, fun ht => ?_, fun ht => ?_, fun ht => ?_⟩
  · rw [ipRestored, if_pos hi, be16_write_of_disjoint _ (length_bytes16 _) (by omega),
      be16_write_of_disjoint _ (length_bytes16 _) (by omega), hb.ident hi]
  · have := hx.tcp ht
    rw [ipRestored]
    split
    · rw [be32_write_of_disjoint _ (length_bytes16 _) (by omega),
        be32_write_of_disjoint _ (length_bytes16 _) (by omega), hb.seq ht]
    · rw [be32_write_of_disjoint _ (length_bytes16 _) (by omega), hb.seq ht]
  · rw [hflag ht, hb.fin ht]
  · rw [hflag ht, hb.psh ht]

theorem tcpRestored_payload {q : Nat} (hq : d.dext0.hdrlen.toNat ≤ q) :
    tcpRestored d b q = b q := by
  rw [tcpRestored]
  split
  next ht =>
    have := hx.tcp ht
    rw [apply_write_of_disjoint _ (List.length_singleton) (by omega),
      apply_write_of_disjoint _ (length_bytes16 _) (by omega)]
  · rfl

theorem tcpRestored_header {id : BitVec 16} {seq : BitVec 32}
    (hb : SegmentHeader d.dext0 id seq false false b) :
    SegmentHeader d.dext0 id seq d.tseTcpfin d.tseTcppsh (tcpRestored d b) := by
  obtain ⟨hfin, hpsh⟩ := finPsh_bits d
  have hflag : d.dext0.tcp = true → tcpRestored d b (d.dext0.tucss.toNat + 13) =
      b (d.dext0.tucss.toNat + 13) ||| d.finPsh := by
    intro ht
    rw [tcpRestored, if_pos ht]
    rw [apply_write_singleton, apply_write_of_disjoint _ (length_bytes16 _) (by omega)]
  refine ⟨fun hi => ?_, fun ht => ?_, fun ht => ?_, fun ht => ?_⟩
  · rw [tcpRestored]
    split
    next ht =>
      have := hx.tcp ht
      rw [be16_write_of_disjoint _ (List.length_singleton) (by omega),
        be16_write_of_disjoint _ (length_bytes16 _) (by omega), hb.ident hi]
    · exact hb.ident hi
  · rw [tcpRestored, if_pos ht]
    simp only
    rw [be32_write_of_disjoint _ (List.length_singleton) (by omega),
      be32_write_of_disjoint _ (length_bytes16 _) (by omega), hb.seq ht]
  · rw [hflag ht, BitVec.getLsbD_or, hb.fin ht, hfin, Bool.false_or]
  · rw [hflag ht, BitVec.getLsbD_or, hb.psh ht, hpsh, Bool.false_or]

theorem identNext_payload {q : Nat} (hq : d.dext0.hdrlen.toNat ≤ q) : identNext d b q = b q := by
  have hip := hx.ip
  rw [identNext]
  split
  · exact apply_write_of_disjoint _ (length_bytes16 _) (by omega)
  · rfl

theorem identNext_header {id : BitVec 16} {seq : BitVec 32} {fin psh : Bool}
    (hb : SegmentHeader d.dext0 id seq fin psh b) :
    SegmentHeader d.dext0 (id + 1) seq fin psh (identNext d b) := by
  have hflag : d.dext0.tcp = true →
      identNext d b (d.dext0.tucss.toNat + 13) = b (d.dext0.tucss.toNat + 13) := by
    intro ht
    have := hx.tcp ht
    rw [identNext]
    split
    · exact apply_write_of_disjoint _ (length_bytes16 _) (by omega)
    · rfl
  refine ⟨fun hi => ?_, fun ht => ?_, fun ht => ?_, fun ht => ?_⟩
  · rw [identNext, if_pos hi, be16_write_bytes16, bswap16_load16, hb.ident hi]
  · have := hx.tcp ht
    rw [identNext]
    split
    · rw [be32_write_of_disjoint _ (length_bytes16 _) (by omega), hb.seq ht]
    · exact hb.seq ht
  · rw [hflag ht, hb.fin ht]
  · rw [hflag ht, hb.psh ht]

theorem seqNext_payload {q : Nat} (hq : d.dext0.hdrlen.toNat ≤ q) : seqNext d b q = b q := by
  rw [seqNext]
  split
  next ht =>
    have := hx.tcp ht
    exact apply_write_of_disjoint _ (length_bytes32 _) (by omega)
  · rfl

theorem seqNext_header {id : BitVec 16} {seq : BitVec 32} {fin psh : Bool}
    (hb : SegmentHeader d.dext0 id seq fin psh b) :
    SegmentHeader d.dext0 id (seq + d.dext0.mss.setWidth 32) fin psh (seqNext d b) := by
  have hflag : d.dext0.tcp = true →
      seqNext d b (d.dext0.tucss.toNat + 13) = b (d.dext0.tucss.toNat + 13) := by
    intro ht
    rw [seqNext, if_pos ht]
    exact apply_write_of_disjoint _ (length_bytes32 _) (by omega)
  refine ⟨fun hi => ?_, fun ht => ?_, fun ht => ?_, fun ht => ?_⟩
  · rw [seqNext]
    split
    next ht =>
      have := hx.tcp ht
      rw [be16_write_of_disjoint _ (length_bytes32 _) (by omega), hb.ident hi]
    · exact hb.ident hi
  · rw [seqNext, if_pos ht, be32_write_bytes32, bswap32_load32, hb.seq ht]
  · rw [hflag ht, hb.fin ht]
  · rw [hflag ht, hb.psh ht]

theorem headerNext_payload {q : Nat} (hq : d.dext0.hdrlen.toNat ≤ q) : headerNext d b q = b q := by
  rw [headerNext, seqNext_payload hx _ hq, identNext_payload hx _ hq, tcpRestored_payload hx _ hq,
    ipRestored_payload hx _ hq]

theorem headerNext_header {id : BitVec 16} {seq : BitVec 32}
    (hb : SegmentHeader d.dext0 id seq false false b) :
    SegmentHeader d.dext0 (id + 1) (seq + d.dext0.mss.setWidth 32) d.tseTcpfin d.tseTcppsh
      (headerNext d b) :=
  seqNext_header hx _ (identNext_header hx _ (tcpRestored_header hx _ (ipRestored_header hx _ hb)))

end headerNext

end OnDemandVirt.Net.Pro1000
