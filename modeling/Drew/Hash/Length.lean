import Drew.Hash.Pad

/-!
# The length of a message

The number in the two words of `m_len` grows by what one word takes of the length of a call
(`counter_count`). So it is the length of the message after every call exactly if no call
goes beyond that, and then the padding has the right length if its words are not smaller
than those of `m_len` (`stream_iff`).
-/

namespace Drew.Hash

open Drew.Memory Drew.Stream

variable {P : Params} {σ : Type} {f : σ → List UInt8 → σ} {s : σ} {m : List UInt8}
  {h h' : Hash P σ}

/-! ## The counter -/

/-- The number in the two words. -/
def counter (h : Hash P σ) : Nat := h.len1.toNat * 2 ^ P.wordBits + h.len0.toNat

theorem counter_init (s : σ) : (init s : Hash P σ).counter = ([] : List UInt8).length % 2 ^ (2 * P.wordBits) := by
  simp [counter, init]

/-- Two digits to which a number below the base is added, with one carry. -/
theorem carry_eq {N a b l : Nat} (ha : a < N) (hb : b < N) (hl : l < N) :
    (if (a + l) % N < a then (b + 1) % N else b) * N + (a + l) % N = (b * N + a + l) % (N * N) := by
  have hrow : (b + 1) * N ≤ N * N := Nat.mul_le_mul_right _ hb
  rw [Nat.add_mul, Nat.one_mul] at hrow
  by_cases hwrap : N ≤ a + l
  · have hmod : (a + l) % N = a + l - N := by
      rw [Nat.mod_eq_sub_mod hwrap, Nat.mod_eq_of_lt (by omega)]
    rw [hmod, if_pos (by omega)]
    by_cases hlast : b + 1 = N
    · -- Both digits wrap.
      have hbN : b * N + N = N * N := by rw [← Nat.succ_mul, Nat.succ_eq_add_one, hlast]
      have hNN : N ≤ N * N := Nat.le_mul_self N
      rw [hlast, Nat.mod_self, Nat.zero_mul, show b * N + a + l = (a + l - N) + N * N by omega,
        Nat.add_mod_right, Nat.mod_eq_of_lt (by omega), Nat.zero_add]
    · have hnext : (b + 2) * N ≤ N * N := Nat.mul_le_mul_right _ (by omega)
      rw [Nat.add_mul] at hnext
      rw [Nat.mod_eq_of_lt (show b + 1 < N by omega), Nat.mod_eq_of_lt (by omega), Nat.add_mul,
        Nat.one_mul]
      omega
  · have hmod : (a + l) % N = a + l := Nat.mod_eq_of_lt (by omega)
    rw [hmod, if_neg (by omega), Nat.mod_eq_of_lt (by omega)]
    omega

/-- A carry goes into the high word when the low one wraps. -/
theorem counter_count (h : Hash P σ) (len : Nat) :
    (h.count len).counter = (h.counter + len % 2 ^ P.wordBits) % 2 ^ (2 * P.wordBits) := by
  have hpos : 0 < 2 ^ P.wordBits := by positivity
  have hlo : ((h.count len).len0).toNat = (h.len0.toNat + len % 2 ^ P.wordBits) % 2 ^ P.wordBits := by
    simp only [count, BitVec.toNat_add, BitVec.toNat_ofNat]
  have hlt : h.len0 + BitVec.ofNat P.wordBits len < h.len0 ↔
      (h.len0.toNat + len % 2 ^ P.wordBits) % 2 ^ P.wordBits < h.len0.toNat := by
    rw [BitVec.lt_def, BitVec.toNat_add, BitVec.toNat_ofNat]
  have hsucc : (h.len1 + 1).toNat = (h.len1.toNat + 1) % 2 ^ P.wordBits := by
    rw [BitVec.toNat_add, show (1 : BitVec P.wordBits) = BitVec.ofNat P.wordBits 1 from rfl,
      BitVec.toNat_ofNat, Nat.add_mod_mod]
  have hhi : ((h.count len).len1).toNat =
      if (h.len0.toNat + len % 2 ^ P.wordBits) % 2 ^ P.wordBits < h.len0.toNat
        then (h.len1.toNat + 1) % 2 ^ P.wordBits else h.len1.toNat := by
    simp only [count]
    split
    · rename_i hc
      rw [if_pos (hlt.mp hc), hsucc]
    · rename_i hc
      rw [if_neg (fun hc' => hc (hlt.mpr hc'))]
  rw [counter, counter, hlo, hhi, carry_eq h.len0.isLt h.len1.isLt (Nat.mod_lt _ hpos), ← pow_add,
    Nat.two_mul]

/-- What an update does to the number. -/
theorem counter_update (ha : After f s m h) {data : List UInt8} (hupdate : update f h data = some h') :
    h'.counter = (h.counter + data.length % 2 ^ P.wordBits) % 2 ^ (2 * P.wordBits) := by
  obtain ⟨h₁, hupdate', ha', hlen1⟩ := update_spec ha data
  obtain rfl := Option.some.inj (hupdate'.symm.trans hupdate)
  rw [← counter_count, counter, counter, hlen1, ha'.len0, count_len0 ha data]

/-- As long as no call is too long the number is the length of the message. -/
theorem counter_run (ha : After f s m h) (hm : h.counter = m.length % 2 ^ (2 * P.wordBits))
    {pieces : List (List UInt8)}
    (hshort : ∀ p ∈ pieces, p.length % 2 ^ (2 * P.wordBits) < 2 ^ P.wordBits)
    (hrun : pieces.foldlM (update f) h = some h') :
    h'.counter = (m ++ pieces.flatten).length % 2 ^ (2 * P.wordBits) := by
  induction pieces generalizing m h with
  | nil =>
    cases hrun
    rwa [List.flatten_nil, List.append_nil]
  | cons p ps ih =>
    obtain ⟨h₁, hupdate, ha₁, -⟩ := update_spec ha p
    rw [List.foldlM_cons, hupdate] at hrun
    rw [List.flatten_cons, ← List.append_assoc]
    apply ih ha₁ _ (fun p' hp' => hshort p' (List.mem_cons_of_mem p hp')) hrun
    have hp := hshort p List.mem_cons_self
    have hdvd : 2 ^ P.wordBits ∣ 2 ^ (2 * P.wordBits) := pow_dvd_pow 2 (by omega)
    have hword : p.length % 2 ^ P.wordBits = p.length % 2 ^ (2 * P.wordBits) := by
      rw [← Nat.mod_mod_of_dvd _ hdvd, Nat.mod_eq_of_lt hp]
    rw [counter_update ha hupdate, hm, hword, List.length_append, Nat.mod_add_mod, Nat.add_mod_mod]

/-! ## The length in bits -/

/-- The words of `len` have the right bits of the length. They do if they are as large as
those of `m_len`. -/
def Padding.LengthFits (D : Padding P) (n : Nat) : Prop :=
  8 * n / 2 ^ P.wordBits % 2 ^ (8 * D.lenBytes) = 8 * n / 2 ^ (8 * D.lenBytes) % 2 ^ (8 * D.lenBytes)

theorem lengthFits_template (P : Params) (bigEndian : Bool) (hf : 2 * P.wordBytes ≤ P.blkSize) (n : Nat) :
    (Padding.template P bigEndian hf).LengthFits n := rfl

/-- A shifted word that takes the bits that leave another one. -/
theorem toNat_shift_or {w : Nat} (hw : 3 ≤ w) (hi lo : BitVec w) :
    (hi <<< 3 ||| lo >>> (w - 3)).toNat = 8 * (hi.toNat * 2 ^ w + lo.toNat) / 2 ^ w % 2 ^ w := by
  obtain ⟨k, rfl⟩ : ∃ k, w = k + 3 := ⟨w - 3, by omega⟩
  obtain ⟨M, hM⟩ : ∃ M, M = 2 ^ k := ⟨_, rfl⟩
  have hN : 2 ^ (k + 3) = 8 * M := by
    rw [pow_add, hM]
    ring
  have hpos : 0 < M := by
    rw [hM]
    positivity
  have hlo := lo.isLt
  rw [hN] at hlo
  have hdiv : lo.toNat / M < 8 := by
    rw [Nat.div_lt_iff_lt_mul hpos]
    omega
  have hshl : (hi <<< 3).toNat = (hi.toNat % M) <<< 3 := by
    rw [BitVec.toNat_shiftLeft, hN, Nat.shiftLeft_eq, Nat.shiftLeft_eq, Nat.mul_comm hi.toNat,
      show (2 : Nat) ^ 3 = 8 by norm_num, Nat.mul_mod_mul_left, Nat.mul_comm]
  have hshr : (lo >>> (k + 3 - 3)).toNat = lo.toNat / M := by
    rw [BitVec.toNat_ushiftRight, Nat.add_sub_cancel, Nat.shiftRight_eq_div_pow, hM]
  have hsum : 8 * (hi.toNat * (8 * M) + lo.toNat) / (8 * M) = 8 * hi.toNat + lo.toNat / M := by
    rw [Nat.mul_div_mul_left _ _ (by norm_num), show hi.toNat * (8 * M) = 8 * hi.toNat * M by ring,
      Nat.add_comm, Nat.add_mul_div_right _ _ hpos, Nat.add_comm]
  have hhi := Nat.div_add_mod hi.toNat M
  have hdigit : hi.toNat % M < M := Nat.mod_lt _ hpos
  have hval : 8 * hi.toNat + lo.toNat / M =
      (hi.toNat % M * 8 + lo.toNat / M) + 8 * M * (hi.toNat / M) := by
    calc 8 * hi.toNat + lo.toNat / M
        = 8 * (M * (hi.toNat / M) + hi.toNat % M) + lo.toNat / M := by rw [hhi]
      _ = _ := by ring
  rw [BitVec.toNat_or, hshl, hshr, ← Nat.shiftLeft_add_eq_or_of_lt (by simpa using hdiv), hN, hsum,
    hval, Nat.add_mul_mod_self_left,
    Nat.mod_eq_of_lt (show hi.toNat % M * 8 + lo.toNat / M < 8 * M by omega), Nat.shiftLeft_eq]

/-- The words of Tiger do up to `2 ^ 29` bytes. -/
theorem lengthFits_tiger {n : Nat} (hn : n < 2 ^ 29) : Padding.tiger.LengthFits n := by
  change 8 * n / 2 ^ 64 % 2 ^ 32 = 8 * n / 2 ^ 32 % 2 ^ 32
  omega

/-- From there on they do not. -/
example : ¬ Padding.tiger.LengthFits (2 ^ 29) := by
  change ¬ 8 * 2 ^ 29 / 2 ^ 64 % 2 ^ 32 = 8 * 2 ^ 29 / 2 ^ 32 % 2 ^ 32
  decide

theorem bitLength_spec (D : Padding P) (hm : h.counter = m.length % 2 ^ (2 * P.wordBits)) :
    h.bitLength D = (8 * m.length / 2 ^ P.wordBits % 2 ^ (8 * D.lenBytes),
      8 * m.length % 2 ^ (8 * D.lenBytes)) := by
  have hw : 3 ≤ P.wordBits := by
    have hpos := P.wordBytes_pos
    unfold Params.wordBits
    omega
  obtain ⟨N, hN⟩ : ∃ N, N = 2 ^ P.wordBits := ⟨_, rfl⟩
  obtain ⟨V, hV⟩ : ∃ V, V = 2 ^ (8 * D.lenBytes) := ⟨_, rfl⟩
  have hpos : 0 < N := by
    rw [hN]
    positivity
  have hdvd : V ∣ N := by
    have hle := D.lenBytes_le
    rw [hV, hN]
    apply pow_dvd_pow
    unfold Params.wordBits
    omega
  -- The message has whole multiples of the range of the counter more bytes.
  obtain ⟨k, hk⟩ : ∃ k, m.length = h.counter + N * (N * k) := by
    refine ⟨m.length / (N * N), ?_⟩
    have hsplit := Nat.mod_add_div m.length (N * N)
    rw [hm, Nat.two_mul, pow_add, ← hN, ← Nat.mul_assoc, hsplit]
  have hhi : (h.len1 <<< 3 ||| h.len0 >>> (P.wordBits - 3)).toNat % V = 8 * m.length / N % V := by
    rw [toNat_shift_or hw, ← hN, Nat.mod_mod_of_dvd _ hdvd, hk, hN, ← counter, ← hN,
      show 8 * (h.counter + N * (N * k)) = 8 * h.counter + N * (N * (8 * k)) by ring,
      Nat.add_mul_div_left _ _ hpos]
    obtain ⟨j, hj⟩ := hdvd
    rw [hj, Nat.mul_assoc V j, Nat.add_mul_mod_self_left]
  have hlo : (h.len0 <<< 3).toNat % V = 8 * m.length % V := by
    rw [BitVec.toNat_shiftLeft, ← hN, Nat.mod_mod_of_dvd _ hdvd, Nat.shiftLeft_eq, hk, counter, ← hN]
    obtain ⟨j, hj⟩ := hdvd
    rw [hj, show 8 * (h.len1.toNat * (V * j) + h.len0.toNat + V * j * (V * j * k)) =
      h.len0.toNat * 2 ^ 3 + V * (8 * j * (h.len1.toNat + V * j * k)) by ring, Nat.add_mul_mod_self_left]
  rw [bitLength, ← hV, ← hN, hhi, hlo]

/-- The two words make the number that is meant if the high one fits. -/
theorem copyLength_eq_iff (D : Padding P) (n : Nat) :
    D.copyLength (8 * n / 2 ^ P.wordBits % 2 ^ (8 * D.lenBytes) * 2 ^ (8 * D.lenBytes) +
        8 * n % 2 ^ (8 * D.lenBytes)) = D.copyLength (8 * n) ↔ D.LengthFits n := by
  obtain ⟨V, hV⟩ : ∃ V, V = 2 ^ (8 * D.lenBytes) := ⟨_, rfl⟩
  have hpos : 0 < V := by
    rw [hV]
    positivity
  have hrange : 256 ^ (2 * D.lenBytes) = V * V := by
    rw [hV, ← pow_add, show (256 : Nat) = 2 ^ 8 by norm_num, ← pow_mul]
    congr 1
    ring
  have hmod : 8 * n % (V * V) = 8 * n / V % V * V + 8 * n % V := by
    rw [Nat.mod_mul, Nat.mul_comm V, Nat.add_comm]
  have hlt : 8 * n / 2 ^ P.wordBits % V * V + 8 * n % V < V * V := by
    have hlo := Nat.mod_lt (8 * n) hpos
    have hhi : (8 * n / 2 ^ P.wordBits % V + 1) * V ≤ V * V :=
      Nat.mul_le_mul_right _ (Nat.mod_lt _ hpos)
    rw [Nat.add_mul, Nat.one_mul] at hhi
    omega
  rw [Padding.LengthFits, ← hV]
  constructor
  · intro h
    have hnum := copyLength_inj D h
    rw [hrange, Nat.mod_eq_of_lt hlt, hmod] at hnum
    exact Nat.eq_of_mul_eq_mul_right hpos (Nat.add_right_cancel hnum)
  · intro h
    rw [h, ← hmod, ← hrange, copyLength_mod]

/-! ## The blocks of a message -/

/-- A `Transform` that notes its blocks. -/
def note (bs : List (List UInt8)) (b : List UInt8) : List (List UInt8) := bs ++ [b]

/-- The blocks that go through `Transform` for a message in pieces. -/
def blocksPassed (D : Padding P) (pieces : List (List UInt8)) : Option (List (List UInt8)) := do
  let h ← pieces.foldlM (update note) (init [] : Hash P _)
  let h ← pad note D h
  return h.hash

/-- The number in `m_len` after some calls. -/
def lengthAfter (P : Params) (pieces : List (List UInt8)) : Option Nat :=
  (pieces.foldlM (update note) (init [] : Hash P _)).map counter

/-- The blocks are those of the padded message, and the length is right after every call. -/
def Streams (D : Padding P) (pieces : List (List UInt8)) : Prop :=
  blocksPassed D pieces = some (blocksOf P (D.padded pieces.flatten)) ∧
    ∀ n, lengthAfter P (pieces.take n) =
      some ((pieces.take n).flatten.length % 2 ^ (2 * P.wordBits))

theorem flatten_blocksOf_paddedWith (D : Padding P) (m : List UInt8) (len : Nat) :
    (blocksOf P (D.paddedWith m len)).flatten = D.paddedWith m len := by
  have hlen := length_paddedWith D m len
  rw [blocksOf, hlen, Nat.mul_div_cancel _ P.blkSize_pos, flatten_chunks hlen.ge, ← hlen, List.take_length]

theorem paddedWith_inj (D : Padding P) {n k : Nat}
    (h : blocksOf P (D.paddedWith m n) = blocksOf P (D.paddedWith m k)) :
    D.copyLength n = D.copyLength k := by
  have hflat := congrArg List.flatten h
  rw [flatten_blocksOf_paddedWith, flatten_blocksOf_paddedWith] at hflat
  exact List.append_cancel_left (List.append_cancel_left hflat)

/-- If the length is right after every call, no call is too long. -/
theorem short_of_lengthAfter {pieces : List (List UInt8)}
    (hall : ∀ n, lengthAfter P (pieces.take n) =
      some ((pieces.take n).flatten.length % 2 ^ (2 * P.wordBits))) :
    ∀ p ∈ pieces, p.length % 2 ^ (2 * P.wordBits) < 2 ^ P.wordBits := by
  intro p hp
  obtain ⟨i, hi, rfl⟩ := List.mem_iff_getElem.mp hp
  obtain ⟨p, hp⟩ : ∃ p, p = pieces[i] := ⟨_, rfl⟩
  have htake : pieces.take (i + 1) = pieces.take i ++ [p] := by
    rw [hp, List.take_add_one, List.getElem?_eq_getElem hi]
    rfl
  obtain ⟨h, hrun, ha⟩ := run_spec (after_nil (P := P) note []) (pieces.take i)
  obtain ⟨h', hupdate, -, -⟩ := update_spec ha p
  have hbefore := hall i
  have hafter := hall (i + 1)
  have hrun' : (pieces.take i ++ [p]).foldlM (update note) (init [] : Hash P _) = some h' := by
    rw [List.foldlM_append, hrun]
    simp only [Option.bind_eq_bind, Option.bind_some, List.foldlM_cons, List.foldlM_nil, hupdate, pure]
  rw [lengthAfter, hrun, Option.map_some, Option.some.injEq] at hbefore
  rw [htake, lengthAfter, hrun', Option.map_some, Option.some.injEq, counter_update ha hupdate,
    hbefore, Nat.mod_add_mod, List.flatten_append, List.length_append, List.flatten_singleton] at hafter
  -- What the word takes of the length differs from it by a multiple of the range.
  have hcancel := Nat.ModEq.add_left_cancel' _ hafter
  have hle : 2 ^ P.wordBits ≤ 2 ^ (2 * P.wordBits) := Nat.pow_le_pow_right (by norm_num) (by omega)
  have hword : p.length % 2 ^ P.wordBits < 2 ^ P.wordBits := Nat.mod_lt _ (by positivity)
  rw [← hp, ← hcancel, Nat.mod_eq_of_lt (by omega)]
  exact hword

/-- The blocks and lengths are right exactly if no call has more bytes than one word counts
and the bits of the length are in the right words of the padding. -/
theorem stream_iff (D : Padding P) (pieces : List (List UInt8)) :
    Streams D pieces ↔ (∀ p ∈ pieces, p.length % 2 ^ (2 * P.wordBits) < 2 ^ P.wordBits) ∧
      D.LengthFits pieces.flatten.length := by
  obtain ⟨h, hrun, ha⟩ := run_spec (after_nil (P := P) note []) pieces
  rw [List.nil_append] at ha
  obtain ⟨h', hpad, hhash⟩ := pad_spec D ha
  have hfold : ∀ bs : List (List UInt8), bs.foldl note [] = bs := fun bs => foldl_snoc [] bs
  have hblocks : blocksPassed D pieces = some (blocksOf P (D.paddedWith pieces.flatten
      ((h.bitLength D).1 * 2 ^ (8 * D.lenBytes) + (h.bitLength D).2))) := by
    simp only [blocksPassed, hrun, hpad, hhash, hfold, Option.bind_eq_bind, Option.bind_some, pure]
  have hcounter : ∀ ps : List (List UInt8),
      (∀ p ∈ ps, p.length % 2 ^ (2 * P.wordBits) < 2 ^ P.wordBits) →
      lengthAfter P ps = some (ps.flatten.length % 2 ^ (2 * P.wordBits)) := by
    intro ps hshort
    obtain ⟨h₁, hrun₁, -⟩ := run_spec (after_nil (P := P) note []) ps
    have hlen := counter_run (after_nil (P := P) note []) (counter_init _) hshort hrun₁
    rw [lengthAfter, hrun₁, Option.map_some, hlen, List.nil_append]
  have hfield : (∀ p ∈ pieces, p.length % 2 ^ (2 * P.wordBits) < 2 ^ P.wordBits) →
      (blocksPassed D pieces = some (blocksOf P (D.padded pieces.flatten)) ↔
        D.LengthFits pieces.flatten.length) := by
    intro hshort
    have hlen := counter_run (after_nil (P := P) note []) (counter_init _) hshort hrun
    rw [List.nil_append] at hlen
    rw [hblocks, Option.some.injEq, bitLength_spec D hlen, ← copyLength_eq_iff D]
    constructor
    · exact paddedWith_inj D
    · intro hcopy
      rw [Padding.padded, Padding.paddedWith, hcopy]
      rfl
  constructor
  · rintro ⟨hpass, hall⟩
    have hshort := short_of_lengthAfter hall
    exact ⟨hshort, (hfield hshort).mp hpass⟩
  · rintro ⟨hshort, hfits⟩
    exact ⟨(hfield hshort).mpr hfits, fun n =>
      hcounter _ fun p hp => hshort p (List.mem_of_mem_take hp)⟩

/-- MD5, which gets `2 ^ 32` bytes in one call: the length stays zero. -/
theorem md5_long_call :
    lengthAfter .words32 [List.replicate (2 ^ 32) 0] = some 0 ∧
      ¬ Streams (Padding.template .words32 false (by decide)) [List.replicate (2 ^ 32) 0] := by
  have ha := after_nil (P := .words32) note []
  obtain ⟨h, hupdate, -, -⟩ := update_spec ha (List.replicate (2 ^ 32) 0)
  have hcounter := counter_update ha hupdate
  have hrun : [List.replicate (2 ^ 32) (0 : UInt8)].foldlM (update note) (init [] : Hash .words32 _) =
      some h := by
    simp only [List.foldlM_cons, List.foldlM_nil, hupdate, Option.bind_eq_bind, Option.bind_some, pure]
  refine ⟨?_, fun hs => ?_⟩
  · rw [lengthAfter, hrun, Option.map_some, hcounter, List.length_replicate]
    rfl
  · have hshort := short_of_lengthAfter hs.2 _ List.mem_cons_self
    rw [List.length_replicate] at hshort
    exact absurd hshort (by decide)

end Drew.Hash
