import Drew.Prng.HashDrbg.Model
import Drew.Stream.Keystream

/-!
# What Hash_DRBG generates

`AddArrays` adds big-endian numbers modulo the range of the first one, `HashGen` hashes
successive values of `V`, and `HashDF` is the derivation function of the standard but for the byte
order of the number of bits.
-/

namespace Drew.Prng

open Drew.Memory Drew.Mac Drew.Stream

open Drew.Mode.Gcm (ByteOrder)

/-! ## Sums -/

section Sums

variable {m n : Nat}

theorem carry_toNat {v : Nat} (h : v < 512) : (decide (v / 256 ≠ 0)).toNat = v / 256 := by
  have hle : v / 256 ≤ 1 := by omega
  by_cases hz : v / 256 = 0
  · simp [hz]
  · have hone : v / 256 = 1 := by omega
    simp [hone]

theorem addFrom_spec {buf : Buf UInt8 n} {input : Buf UInt8 m} (i : Nat) (carry : Bool)
    {xs ys : List UInt8} (hx : buf.Holds 0 xs) (hy : input.Holds 0 ys) (hxs : xs.length = i)
    (hys : ys.length = i) :
    ∃ w, addFrom input i carry buf = some w ∧
      w.Holds 0 (beBytes i (beNat xs + beNat ys + carry.toNat)) ∧
      Buf.SameOutside buf w 0 i := by
  induction i generalizing buf carry xs ys with
  | zero => exact ⟨buf, rfl, Buf.holds_nil (Nat.zero_le _), Buf.SameOutside.refl _ _ _⟩
  | succ i ih =>
    obtain ⟨xs, x, rfl⟩ : ∃ zs z, xs = zs ++ [z] :=
      ⟨xs.dropLast, xs.getLast (by rintro rfl; cases hxs), (List.dropLast_append_getLast _).symm⟩
    obtain ⟨ys, y, rfl⟩ : ∃ zs z, ys = zs ++ [z] :=
      ⟨ys.dropLast, ys.getLast (by rintro rfl; cases hys), (List.dropLast_append_getLast _).symm⟩
    have hxlen : xs.length = i := by simpa using hxs
    have hylen : ys.length = i := by simpa using hys
    have hloadx : buf.load i = some x := by
      have hr := hx.right.load_head
      rwa [Nat.zero_add, hxlen] at hr
    have hloady : input.load i = some y := by
      have hr := hy.right.load_head
      rwa [Nat.zero_add, hylen] at hr
    have hin : i < n := by
      have hb := hx.1
      rw [hxs] at hb
      omega
    have hbyte := x.toNat_lt
    have hbyte' := y.toNat_lt
    have hc : carry.toNat ≤ 1 := Bool.toNat_le carry
    let val := x.toNat + (y.toNat + carry.toNat)
    have hval : (decide (val / 256 ≠ 0)).toNat = val / 256 := carry_toNat (by omega)
    obtain ⟨w, hrun, hw, hsame⟩ := ih (decide (val / 256 ≠ 0))
      (hx.left.set_of_disjoint (UInt8.ofNat val) hin (Or.inr (by omega))) hy.left hxlen hylen
    rw [hval] at hw
    have hlast : w.Holds i [UInt8.ofNat val] :=
      (Buf.holds_set_same buf (UInt8.ofNat val) hin).of_sameOutside hsame (Or.inl (by omega))
    have hsum : beNat (xs ++ [x]) + beNat (ys ++ [y]) + carry.toNat =
        256 * (beNat xs + beNat ys) + val := by
      rw [beNat_append, beNat_append, List.length_singleton, List.length_singleton, pow_one]
      simp only [beNat, beVal_singleton, val]
      ring
    have hdiv : (256 * (beNat xs + beNat ys) + val) / 256 = beNat xs + beNat ys + val / 256 := by
      omega
    have hmod : UInt8.ofNat (256 * (beNat xs + beNat ys) + val) = UInt8.ofNat val := by
      apply UInt8.toNat_inj.mp
      simp
    refine ⟨w, ?_, ?_, ?_⟩
    · simp only [addFrom, hloadx, hloady, Option.bind_eq_bind, Option.bind_some,
        Buf.store_of_lt buf _ hin]
      exact hrun
    · rw [hsum, beBytes, hdiv, hmod]
      refine hw.append ?_
      rw [length_beBytes, Nat.zero_add]
      exact hlast
    · intro j hj
      rw [hsame j (by omega), Vector.getElem?_set_ne]
      omega

/-- Cutting off a summand does not change the sum. -/
theorem beBytes_add_left (len a b : Nat) :
    beBytes len (beNat (beBytes len a) + b) = beBytes len (a + b) := by
  rw [beNat_beBytes, ← beBytes_mod, Nat.mod_add_mod, beBytes_mod]

theorem beBytes_add_right (len a b : Nat) :
    beBytes len (a + beNat (beBytes len b)) = beBytes len (a + b) := by
  rw [Nat.add_comm, beBytes_add_left, Nat.add_comm]

/-- The sum, modulo the range of numbers of `len` bytes. -/
theorem addArrays_spec {buf : Buf UInt8 n} {input : Buf UInt8 m} {len : Nat}
    {xs ys : List UInt8} (hx : buf.Holds 0 xs) (hy : input.Holds 0 ys) (hxs : xs.length = len)
    (hys : ys.length = len) :
    ∃ w, addArrays buf len input = some w ∧ w.Holds 0 (beBytes len (beNat xs + beNat ys)) := by
  obtain ⟨w, hrun, hw, -⟩ := addFrom_spec len false hx hy hxs hys
  exact ⟨w, hrun, hw⟩

/-- A number in a longer array of zeros. -/
theorem writeBack_spec {k : Nat} (hk : k ≤ n) {xs : List UInt8} (hxs : xs.length = k) :
    ∃ w, writeBack (Vector.replicate n 0) k xs = some w ∧ w.Holds 0 (beBytes n (beNat xs)) := by
  obtain ⟨w, hw⟩ := Buf.exists_write_at (Vector.replicate n (0 : UInt8)) (n - k) xs (by omega)
  refine ⟨w, by rw [writeBack, if_pos hk, hw], ?_⟩
  have hzero : Buf.Holds (Vector.replicate n (0 : UInt8)) 0 (List.replicate (n - k) 0) := by
    refine ⟨by simp, fun i hi => ?_⟩
    rw [List.length_replicate] at hi
    rw [Nat.zero_add, List.getElem?_replicate_of_lt hi, Vector.getElem?_replicate,
      if_pos (by omega)]
  have hall : w.Holds 0 (List.replicate (n - k) 0 ++ xs) := by
    refine (hzero.write_of_disjoint hw (Or.inr (by simp))).append ?_
    rw [List.length_replicate, Nat.zero_add]
    exact Buf.holds_write hw
  have hvalue : beNat (List.replicate (n - k) 0 ++ xs) = beNat xs := by
    rw [beNat_append, beNat_replicate_zero, Nat.zero_mul, Nat.zero_add]
  have hlen : (List.replicate (n - k) (0 : UInt8) ++ xs).length = n := by
    rw [List.length_append, List.length_replicate]
    omega
  have heq := beBytes_beNat (List.replicate (n - k) (0 : UInt8) ++ xs)
  rw [hlen, hvalue] at heq
  rwa [heq]

end Sums

/-! ## Digests -/

section Helper

variable {A : HashAlgorithm} {hh : HashHelper A}

/-- The helper can be reset, and its context has absorbed a text. -/
structure HashHelper.After (text : List UInt8) (hh : HashHelper A) : Prop where
  orighash : A.Absorbed hh.orighash []
  hash : A.Absorbed hh.hash text

theorem HashHelper.new_after {h : A.Ctx} (h0 : A.Absorbed h []) : (HashHelper.new h).After [] :=
  ⟨h0, A.absorbed_clone h0⟩

theorem HashHelper.After.addData {text : List UInt8} (h : hh.After text) (data : List UInt8) :
    (hh.addData data).After (text ++ data) :=
  ⟨h.orighash, A.absorbed_update data h.hash⟩

/-- What is copied of the digest, and that the helper can be used again. -/
theorem HashHelper.After.getDigest {text : List UInt8} (h : hh.After text) (len : Nat) :
    (hh.getDigest len).2 = (A.digest text).take len ∧ (hh.getDigest len).1.reset.After [] := by
  have hfinal : (A.final hh.hash A.size).2 = A.digest text := A.final_of_absorbed h.hash
  have hlen := A.length_digest text
  refine ⟨?_, h.orighash, A.absorbed_clone h.orighash⟩
  rw [HashHelper.getDigest]
  dsimp only
  rw [hfinal]
  split
  · rw [List.take_of_length_le (by omega)]
  · rw [List.take_eq_take_min (i := len), hlen, Nat.min_comm]

end Helper

/-! ## The derivation function -/

/-- Hash_df, with the bytes that stand for the number of bits. -/
def hashDfWith (A : HashAlgorithm) (bits inp : List UInt8) (outlen : Nat) : List UInt8 :=
  firstOf (fun i => A.digest (UInt8.ofNat (i + 1) :: (bits ++ inp))) outlen

/-- Hash_df: the number of bits has its most significant byte first. -/
def hashDf (A : HashAlgorithm) (inp : List UInt8) (outlen : Nat) : List UInt8 :=
  hashDfWith A (beBytes 4 (outlen * 8)) inp outlen

namespace HashDrbg

variable {A : HashAlgorithm} {n : Nat}

/-- The loop of `HashDF` before round `i`. -/
structure Deriving (bits inp : List UInt8) (i : Nat) (s : HashHelper A × UInt8 × List UInt8) :
    Prop where
  helper : s.1.After []
  counter : s.2.1 = UInt8.ofNat (i + 1)
  temp : s.2.2 = blocks (fun i => A.digest (UInt8.ofNat (i + 1) :: (bits ++ inp))) i

theorem dfRound_spec {bits inp : List UInt8} {i : Nat} {s : HashHelper A × UInt8 × List UInt8}
    (h : Deriving bits inp i s) : Deriving bits inp (i + 1) (dfRound bits inp s i) := by
  obtain ⟨hh, counter, temp⟩ := s
  obtain ⟨hhelper, rfl, rfl⟩ := h
  have hfed := ((hhelper.addData [UInt8.ofNat (i + 1)]).addData bits).addData inp
  obtain ⟨hdigest, hreset⟩ := hfed.getDigest A.size
  refine ⟨hreset, ?_, ?_⟩
  · apply UInt8.toNat_inj.mp
    simp [dfRound]
  · rw [blocks_succ]
    change _ ++ (HashHelper.getDigest _ A.size).2 = _
    rw [hdigest, List.take_of_length_le (by rw [A.length_digest])]
    rfl

theorem hashDF_spec (order : ByteOrder) {h : A.Ctx} (h0 : A.Absorbed h []) (inp : List UInt8)
    (outlen : Nat) :
    hashDF order h inp outlen = hashDfWith A (nativeBytes order (outlen * 8)) inp outlen := by
  have hloop : ∀ k, Deriving (nativeBytes order (outlen * 8)) inp k
      ((List.range k).foldl (dfRound (nativeBytes order (outlen * 8)) inp)
        ((HashHelper.new h, 1, []) : HashHelper A × UInt8 × List UInt8)) := by
    intro k
    induction k with
    | zero => exact ⟨HashHelper.new_after h0, rfl, rfl⟩
    | succ k ih =>
      rw [List.range_succ, List.foldl_append]
      exact dfRound_spec ih
  have htemp := (hloop ((outlen + (A.size - 1)) / A.size)).temp
  have hlen : ∀ i : Nat, (A.digest (UInt8.ofNat (i + 1) ::
      (nativeBytes order (outlen * 8) ++ inp))).length = A.size := fun _ => A.length_digest _
  rw [hashDfWith, firstOf_eq hlen A.size_pos (le_rounds_mul A.size_pos outlen), ← htemp]
  rfl

end HashDrbg

end Drew.Prng
