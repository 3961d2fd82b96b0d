import Drew.Memory.Buffer

/-!
# Big-endian numbers in memory

The value of a list of digits, most significant first, and the counter that is kept as
such a list: `increment` adds one to the last digit and carries to the left. The digits
are bytes or machine words; what they have in common is in the section variables.
-/

namespace Drew.Memory

/-! ## Values -/

/-- The value of a list of digits to the base `B`, most significant first. -/
def beVal {D : Type} (val : D → Nat) (B : Nat) (ds : List D) : Nat :=
  Nat.ofDigits B (ds.reverse.map val)

section Value

variable {D : Type} {val : D → Nat} {B : Nat}

@[simp] theorem beVal_nil : beVal val B [] = 0 := rfl

@[simp] theorem beVal_singleton (d : D) : beVal val B [d] = val d := by
  simp [beVal]

theorem beVal_append (xs ys : List D) :
    beVal val B (xs ++ ys) = beVal val B xs * B ^ ys.length + beVal val B ys := by
  simp only [beVal, List.reverse_append, List.map_append, Nat.ofDigits_append, List.length_map,
    List.length_reverse]
  ring

theorem beVal_cons (d : D) (ds : List D) :
    beVal val B (d :: ds) = val d * B ^ ds.length + beVal val B ds := by
  have h : beVal val B ([d] ++ ds) = _ := beVal_append [d] ds
  simpa using h

theorem beVal_lt (hlt : ∀ d, val d < B) (ds : List D) : beVal val B ds < B ^ ds.length := by
  induction ds with
  | nil => simp
  | cons d ds ih =>
    have hd := hlt d
    have hle : (val d + 1) * B ^ ds.length ≤ B * B ^ ds.length := Nat.mul_le_mul_right _ hd
    rw [beVal_cons, List.length_cons, pow_succ']
    rw [Nat.add_mul, Nat.one_mul] at hle
    omega

theorem beVal_inj (hinj : Function.Injective val) (hlt : ∀ d, val d < B) {xs ys : List D}
    (hlen : xs.length = ys.length) (h : beVal val B xs = beVal val B ys) : xs = ys := by
  induction xs generalizing ys with
  | nil => exact (List.eq_nil_of_length_eq_zero hlen.symm).symm
  | cons x xs ih =>
    cases ys with
    | nil => simp at hlen
    | cons y ys =>
      have hlen' : xs.length = ys.length := by simpa using hlen
      have hx := beVal_lt hlt xs
      have hy := beVal_lt hlt ys
      rw [beVal_cons, beVal_cons, ← hlen'] at h
      rw [← hlen'] at hy
      have hpos : 0 < B ^ xs.length := by omega
      have hhead : val x = val y := by
        have hdiv : (val x * B ^ xs.length + beVal val B xs) / B ^ xs.length =
            (val y * B ^ xs.length + beVal val B ys) / B ^ xs.length := by rw [h]
        rwa [Nat.add_comm, Nat.add_mul_div_right _ _ hpos, Nat.div_eq_of_lt hx,
          Nat.add_comm (val y * _), Nat.add_mul_div_right _ _ hpos, Nat.div_eq_of_lt hy,
          Nat.zero_add, Nat.zero_add] at hdiv
      rw [hinj hhead, ih hlen' (by rw [hhead] at h; omega)]

end Value

/-! ## Bytes -/

/-- The number that a list of bytes is, most significant byte first. -/
def beNat (bs : List UInt8) : Nat := beVal UInt8.toNat 256 bs

/-- The `len` low bytes of a number, most significant byte first. -/
def beBytes : Nat → Nat → List UInt8
  | 0, _ => []
  | len + 1, k => beBytes len (k / 256) ++ [UInt8.ofNat k]

@[simp] theorem length_beBytes (len k : Nat) : (beBytes len k).length = len := by
  induction len generalizing k with
  | zero => rfl
  | succ len ih => simp [beBytes, ih]

theorem beNat_append (xs ys : List UInt8) :
    beNat (xs ++ ys) = beNat xs * 256 ^ ys.length + beNat ys := beVal_append xs ys

theorem beNat_lt (bs : List UInt8) : beNat bs < 256 ^ bs.length := beVal_lt UInt8.toNat_lt bs

theorem beNat_inj {xs ys : List UInt8} (hlen : xs.length = ys.length) (h : beNat xs = beNat ys) :
    xs = ys := beVal_inj (fun _ _ => UInt8.toNat_inj.mp) UInt8.toNat_lt hlen h

theorem beNat_beBytes (len k : Nat) : beNat (beBytes len k) = k % 256 ^ len := by
  induction len generalizing k with
  | zero => simp [beBytes, beNat, Nat.mod_one]
  | succ len ih =>
    rw [beBytes, beNat_append, ih, pow_succ', Nat.mod_mul]
    simp [beNat]
    ring

theorem beBytes_beNat (bs : List UInt8) : beBytes bs.length (beNat bs) = bs := by
  apply beNat_inj (length_beBytes _ _)
  rw [beNat_beBytes, Nat.mod_eq_of_lt (beNat_lt bs)]

theorem beBytes_mod (len k : Nat) : beBytes len (k % 256 ^ len) = beBytes len k := by
  apply beNat_inj (by simp)
  rw [beNat_beBytes, beNat_beBytes, Nat.mod_mod]

theorem beNat_replicate_zero (k : Nat) : beNat (List.replicate k 0) = 0 := by
  induction k with
  | zero => rfl
  | succ k ih =>
    rw [List.replicate_succ', beNat_append, ih, Nat.zero_mul, Nat.zero_add]
    rfl

/-- More bytes than a number has begin with zeros. -/
theorem beBytes_of_lt {len k : Nat} (h : k < 256 ^ len) (n : Nat) :
    beBytes (n + len) k = List.replicate n 0 ++ beBytes len k := by
  apply beNat_inj (by simp)
  have hle : 256 ^ len ≤ 256 ^ (n + len) := Nat.pow_le_pow_right (by norm_num) (Nat.le_add_left _ _)
  rw [beNat_append, beNat_replicate_zero, beNat_beBytes, beNat_beBytes, Nat.zero_mul, Nat.zero_add,
    Nat.mod_eq_of_lt h, Nat.mod_eq_of_lt (by omega)]

/-! ## Words -/

/-- The 32-bit words that a list of bytes is, most significant byte first. -/
def beWords : List UInt8 → List UInt32
  | a :: b :: c :: d :: bs => UInt32.ofNat (beNat [a, b, c, d]) :: beWords bs
  | _ => []

def wordsVal (ws : List UInt32) : Nat := beVal UInt32.toNat (2 ^ 32) ws

theorem beNat_flatMap_word (ws : List UInt32) :
    beNat (ws.flatMap fun w => beBytes 4 w.toNat) = wordsVal ws := by
  induction ws with
  | nil => rfl
  | cons w ws ih =>
    have hlen : (ws.flatMap fun w => beBytes 4 w.toNat).length = 4 * ws.length := by
      simp [List.length_flatMap, Nat.mul_comm]
    have hw : beNat (beBytes 4 w.toNat) = w.toNat := by
      rw [beNat_beBytes]
      exact Nat.mod_eq_of_lt w.toNat_lt
    rw [List.flatMap_cons, beNat_append, ih, hlen, hw, wordsVal, wordsVal, beVal_cons, pow_mul]
    norm_num

theorem length_beWords (bs : List UInt8) : (beWords bs).length = bs.length / 4 := by
  induction bs using beWords.induct with
  | case1 a b c d bs ih => simp [beWords, ih]; omega
  | case2 bs h =>
    have hlt : bs.length < 4 := by
      match bs, h with
      | [], _ => simp
      | [_], _ => simp
      | [_, _], _ => simp
      | [_, _, _], _ => simp
      | a :: b :: c :: d :: bs, h => exact absurd rfl (h a b c d bs)
    rw [beWords]
    · simp; omega
    · exact h

theorem wordsVal_beWords {bs : List UInt8} (h : 4 ∣ bs.length) : wordsVal (beWords bs) = beNat bs := by
  induction bs using beWords.induct with
  | case1 a b c d bs ih =>
    have hdvd : 4 ∣ bs.length := by
      simp only [List.length_cons] at h
      omega
    have hlen : 4 * (beWords bs).length = bs.length := by
      rw [length_beWords]
      omega
    have hword := beNat_lt [a, b, c, d]
    have hw : (UInt32.ofNat (beNat [a, b, c, d])).toNat = beNat [a, b, c, d] := by
      rw [UInt32.toNat_ofNat']
      exact Nat.mod_eq_of_lt (by simpa using hword)
    have happ := beNat_append [a, b, c, d] bs
    rw [beWords, wordsVal, beVal_cons, hw, ← wordsVal, ih hdvd]
    rw [show a :: b :: c :: d :: bs = [a, b, c, d] ++ bs from rfl, happ, ← hlen, pow_mul]
    norm_num
  | case2 bs h' =>
    match bs, h, h' with
    | [], _, _ => rfl
    | [_], h, _ => simp at h
    | [_, _], h, _ => simp at h
    | [_, _, _], h, _ => simp at h
    | a :: b :: c :: d :: bs, _, h' => exact absurd rfl (h' a b c d bs)

/-! ## Counters -/

section Counter

variable {D : Type} [Add D] [OfNat D 0] [OfNat D 1] [DecidableEq D] {n : Nat}

/-- Add one to the digit at `i`, and while that carries, to the digits on its left as far
as `lo`. -/
def increment (lo : Nat) : Nat → Buf D n → Option (Buf D n)
  | 0, v => do
      let d ← v.load 0
      v.store 0 (d + 1)
  | i + 1, v => do
      let d ← v.load (i + 1)
      let v ← v.store (i + 1) (d + 1)
      if d + 1 = 0 ∧ lo ≤ i then increment lo i v else return v

/-- Counting the digits between `lo` and `i` adds one to their value, modulo its range,
and leaves the other digits alone. -/
theorem increment_spec (val : D → Nat) (B : Nat) (hlt : ∀ d, val d < B) (hsucc : ∀ d, val (d + 1) = (val d + 1) % B)
    (hzero : ∀ d, d = 0 ↔ val d = 0) {lo i : Nat} {v : Buf D n} (ds : List D) (d : D)
    (h : v.Holds lo (ds ++ [d])) (hi : i = lo + ds.length) :
    ∃ w es, increment lo i v = some w ∧ w.Holds lo es ∧ es.length = ds.length + 1 ∧
      beVal val B es = (beVal val B (ds ++ [d]) + 1) % B ^ (ds.length + 1) ∧
      ∀ j, j < lo ∨ i < j → w[j]? = v[j]? := by
  induction ds using List.reverseRecOn generalizing i d v with
  | nil =>
    have hbound := h.1
    have hlo : i = lo := hi
    have hn : i < n := by simp at hbound; omega
    have hload : v.load i = some d := hlo ▸ h.load_head
    have hset := Buf.holds_set_same v (d + 1) hn
    refine ⟨v.set i (d + 1) hn, [d + 1], ?_, hlo ▸ hset, rfl, ?_, ?_⟩
    · cases i with
      | zero => simp [increment, hload, Buf.store_of_lt v _ hn]
      | succ i => simp [increment, hload, Buf.store_of_lt v _ hn, show ¬lo ≤ i by omega]
    · simp [hsucc]
    · intro j hj
      rw [Vector.getElem?_set_ne]
      omega
  | append_singleton ds e ih =>
    have hbound := h.1
    simp only [List.length_append, List.length_singleton] at hbound hi
    obtain ⟨k, rfl⟩ : ∃ k, i = k + 1 := ⟨lo + ds.length, by omega⟩
    have hn : k + 1 < n := by omega
    have hload : v.load (k + 1) = some d := by
      have hr := h.right.load_head
      rwa [List.length_append, List.length_singleton, ← hi] at hr
    have hstore := Buf.store_of_lt v (d + 1) hn
    have hleft : Buf.Holds (v.set (k + 1) (d + 1) hn) lo (ds ++ [e]) :=
      h.left.set_of_disjoint _ hn (Or.inr (by simp; omega))
    by_cases hd : d + 1 = 0
    · obtain ⟨w, es, hrun, hes, hlen, hval, hout⟩ := ih e hleft (i := k) (by omega)
      have hd1 : val d + 1 = B := by
        have h1 := (hzero _).mp hd
        have h2 := hlt d
        rw [hsucc] at h1
        by_contra hne
        rw [Nat.mod_eq_of_lt (by omega)] at h1
        omega
      have hlast : w.Holds (lo + es.length) [0] := by
        refine ⟨by simp; omega, fun j hj => ?_⟩
        have hj0 : j = 0 := by simpa using hj
        subst hj0
        rw [hout _ (Or.inr (by omega)), hlen, show lo + (ds.length + 1) + 0 = k + 1 by omega,
          Vector.getElem?_set_self, hd]
        rfl
      refine ⟨w, es ++ [0], ?_, hes.append hlast, by simp [hlen], ?_, ?_⟩
      · have hle : lo ≤ k := by omega
        simp only [increment, hload, hstore, Option.bind_eq_bind, Option.bind_some]
        rw [if_pos ⟨hd, hle⟩]
        exact hrun
      · have h0 : val (0 : D) = 0 := (hzero 0).mp rfl
        have hdrop := Nat.mul_mod_mul_right B (beVal val B (ds ++ [e]) + 1) (B ^ (ds.length + 1))
        have hlen2 : (ds ++ [e]).length = ds.length + 1 := by simp
        rw [beVal_append, beVal_append (ds ++ [e]) [d], List.length_singleton, List.length_singleton,
          pow_one, beVal_singleton, beVal_singleton, hval, h0, Nat.add_zero, Nat.add_assoc, hd1,
          hlen2, pow_succ B (ds.length + 1), ← hdrop, Nat.add_mul, Nat.one_mul]
      · intro j hj
        rw [hout j (by omega), Vector.getElem?_set_ne]
        omega
    · have hd1 : val (d + 1) = val d + 1 := by
        have h1 := hlt d
        rw [hsucc]
        refine Nat.mod_eq_of_lt (by_contra fun hge => hd ?_)
        rw [hzero, hsucc, show val d + 1 = B by omega, Nat.mod_self]
      have hsnoc : Buf.Holds (v.set (k + 1) (d + 1) hn) lo (ds ++ [e] ++ [d + 1]) :=
        h.left.snoc _ hn (by simp; omega)
      refine ⟨v.set (k + 1) (d + 1) hn, ds ++ [e] ++ [d + 1], ?_, hsnoc, by simp, ?_, ?_⟩
      · simp [increment, hload, hstore, hd]
      · have hrange := beVal_lt hlt (ds ++ [e] ++ [d + 1])
        simp only [List.length_append, List.length_singleton] at hrange ⊢
        have hsum : beVal val B (ds ++ [e] ++ [d + 1]) = beVal val B (ds ++ [e] ++ [d]) + 1 := by
          rw [beVal_append, beVal_append (ds ++ [e]) [d], beVal_singleton, beVal_singleton, hd1]
          rfl
        rw [← hsum, Nat.mod_eq_of_lt hrange]
      · intro j hj
        rw [Vector.getElem?_set_ne]
        omega

end Counter

/-- Counting the bytes between `lo` and the end of what is held. -/
theorem increment_bytes {n lo i : Nat} {v : Buf UInt8 n} {bs : List UInt8} (h : v.Holds lo bs)
    (hne : bs ≠ []) (hi : i + 1 = lo + bs.length) :
    ∃ w, increment lo i v = some w ∧ w.Holds lo (beBytes bs.length (beNat bs + 1)) ∧
      ∀ j, j < lo ∨ i < j → w[j]? = v[j]? := by
  obtain ⟨ds, d, rfl⟩ : ∃ ds d, bs = ds ++ [d] :=
    ⟨bs.dropLast, bs.getLast hne, (List.dropLast_append_getLast hne).symm⟩
  simp only [List.length_append, List.length_singleton] at hi ⊢
  obtain ⟨w, es, hrun, hes, hlen, hval, hout⟩ :=
    increment_spec UInt8.toNat 256 UInt8.toNat_lt (by simp) (by simp [← UInt8.toNat_inj]) ds d h
      (i := i) (by omega)
  refine ⟨w, hrun, ?_, hout⟩
  have he : es = beBytes (ds.length + 1) (beNat (ds ++ [d]) + 1) := by
    apply beNat_inj (by simp [hlen])
    rw [beNat_beBytes]
    exact hval
  rwa [← he]

/-- Counting all the words of an object. -/
theorem increment_words {n : Nat} (v : Buf UInt32 (n + 1)) :
    ∃ w, increment 0 n v = some w ∧
      wordsVal w.toList = (wordsVal v.toList + 1) % (2 ^ 32) ^ (n + 1) := by
  have hne : v.toList ≠ [] := by
    intro h
    have := congrArg List.length h
    simp at this
  obtain ⟨ds, d, hds⟩ : ∃ ds d, v.toList = ds ++ [d] :=
    ⟨v.toList.dropLast, v.toList.getLast hne, (List.dropLast_append_getLast hne).symm⟩
  have hlen : ds.length = n := by
    have := congrArg List.length hds
    simp at this
    omega
  have hv := Buf.holds_toList v
  rw [hds] at hv
  obtain ⟨w, es, hrun, hes, hlen', hval, -⟩ :=
    increment_spec UInt32.toNat (2 ^ 32) UInt32.toNat_lt (by simp) (by simp [← UInt32.toNat_inj])
      ds d hv (i := n) (by omega)
  refine ⟨w, hrun, ?_⟩
  rw [hes.toList (by omega), hds, ← hlen]
  exact hval

end Drew.Memory
