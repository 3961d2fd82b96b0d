import Drew.Memory.Endian

/-!
# Copies between words and bytes

The model of the helpers of `util.hh`. A machine keeps its words in the order `N`, and `Endian<E>` copies them to and
from bytes in the order `E`; `DREW_BYTE_ORDER` is `N`. An object of words is given by its bytes in memory. A source is
of the bytes that the caller has, so reading behind them fails.

All helpers write the words in the order `E`, cut to the length. They also read them back, but for one case: between
different orders `CopyCarefully` takes a last word of which there are only some bytes from behind the source
(`copies_right_iff`).
-/

namespace Drew.Memory

deriving instance DecidableEq for Endian

/-! ## The functions -/

section Bytes

variable {m k : Nat}

def memcpy (dest : Buf UInt8 m) (d : Nat) (src : Buf UInt8 k) (s len : Nat) : Option (Buf UInt8 m) := do
  let bs ← src.read s len
  dest.write d bs

/-- The body of the inner loop of `CopyBackwards`, with pointers that are `d` and `s` into their objects. -/
def copyByte (d : Nat) (src : Buf UInt8 k) (s sz blk : Nat) (dest : Buf UInt8 m) (j : Nat) :
    Option (Buf UInt8 m) := do
  let x ← src.load (s + (blk + (sz - j - 1)))
  dest.store (d + (blk + j)) x

/-- `CopyBackwards`. The outer loop begins block `b` with `i` at `b * sz`. -/
def copyBackwards (dest : Buf UInt8 m) (d : Nat) (src : Buf UInt8 k) (s len sz : Nat) : Option (Buf UInt8 m) :=
  (List.range ((len + sz - 1) / sz)).foldlM
    (fun dest b => (List.range (min sz (len - b * sz))).foldlM (copyByte d src s sz (b * sz)) dest) dest

variable (N E : Endian)

/-- `Copy` with four arguments, to bytes and to words. -/
def copySized (dest : Buf UInt8 m) (src : Buf UInt8 k) (len sz : Nat) : Option (Buf UInt8 m) :=
  if N = E then memcpy dest 0 src 0 len else copyBackwards dest 0 src 0 len sz

/-- `CopyCarefully`, to bytes and to words. -/
def copyCarefully (dest : Buf UInt8 m) (src : Buf UInt8 k) (len sz : Nat) : Option (Buf UInt8 m) :=
  if N = E then memcpy dest 0 src 0 len else copyBackwards dest 0 src 0 len sz

end Bytes

section Words

variable {W : Type} (T : WordType W)

/-- `ByteSwap`. The functions of the system do the same. -/
def byteSwap (x : W) : W :=
  T.ofNat ((List.range T.size).foldl
    (fun p i => p ||| (T.toNat x >>> (i * 8) &&& 0xff) <<< ((T.size - i - 1) * 8)) 0)

variable (N E : Endian) (swap : Bool) {m k : Nat}

/-- `Convert` of the bytes from `off` on. The parameter `swap` is `FEATURE_BYTESWAP`. -/
def convertFrom (src : Buf UInt8 k) (off : Nat) : Option W :=
  if N = E then (src.read off T.size).map (convert T N)
  else if swap then (src.read off T.size).map fun bs => byteSwap T (convert T N bs)
  else (copyBackwards (Vector.replicate T.size 0) 0 src off T.size T.size).map fun x => convert T N x.toList

/-- The bytes of a word in memory. -/
def wordObject (w : W) : Buf UInt8 T.size := Buf.ofList (convertBytes T N w) (length_convertBytes w)

/-- `Convert` to the bytes from `off` on. -/
def convertTo (dest : Buf UInt8 m) (off : Nat) (w : W) : Option (Buf UInt8 m) :=
  if N = E then memcpy dest off (wordObject T N w) 0 T.size
  else if swap then memcpy dest off (wordObject T N (byteSwap T w)) 0 T.size
  else copyBackwards dest off (wordObject T N w) 0 T.size T.size

/-- `Copy` to bytes, with `CopyByConvert`. -/
def copyTo (dest : Buf UInt8 m) (src : Buf UInt8 k) (len : Nat) : Option (Buf UInt8 m) :=
  if N = E then memcpy dest 0 src 0 len
  else (List.range ((len + T.size - 1) / T.size)).foldlM
    (fun dest i => do
      let w ← (src.read (i * T.size) T.size).map (convert T N)
      convertTo T N E swap dest (i * T.size) w) dest

/-- `Copy` to words, with `CopyByConvert`. -/
def copyFrom (dest : Buf UInt8 m) (src : Buf UInt8 k) (len : Nat) : Option (Buf UInt8 m) :=
  if N = E then memcpy dest 0 src 0 len
  else (List.range ((len + T.size - 1) / T.size)).foldlM
    (fun dest i => do
      let w ← convertFrom T N E swap src (i * T.size)
      dest.write (i * T.size) (convertBytes T N w)) dest

/-- `CopyIfNeeded`: the buffer, and the bytes at the pointer that is returned. -/
def copyIfNeeded (aligned : Bool) (buf : Buf UInt8 m) (p : Buf UInt8 k) (len : Nat) :
    Option (Buf UInt8 m × List UInt8) :=
  if E = N ∧ aligned = true then (p.read 0 len).map fun bs => (buf, bs)
  else do
    let buf ← copyFrom T N E swap buf p len
    let bs ← buf.read 0 len
    return (buf, bs)

end Words

/-! ## What is meant -/

section Meaning

variable {W : Type} (T : WordType W) (N E : Endian) (swap : Bool)

/-- The object of some words. -/
def memory {n : Nat} (ws : Vector W n) : Buf UInt8 (T.size * n) := Buf.ofList (copyOut T N ws) (length_copyOut ws)

/-- What the helpers are to do with `len` bytes, for all words and objects. -/
structure CopiesRight (len : Nat) : Prop where
  /-- The words in the order `E`, cut to the length, and nothing else is written. -/
  write : ∀ {n m : Nat} (ws : Vector W n) (dest : Buf UInt8 m), len ≤ T.size * n → len ≤ m →
    copyCarefully N E dest (memory T N ws) len T.size = dest.write 0 ((copyOut T E ws).take len) ∧
    (T.size ∣ len →
      copySized N E dest (memory T N ws) len T.size = dest.write 0 ((copyOut T E ws).take len) ∧
      copyTo T N E swap dest (memory T N ws) len = dest.write 0 ((copyOut T E ws).take len))
  writeWord : ∀ {m : Nat} (w : W) (dest : Buf UInt8 m) (off : Nat), off + T.size ≤ m →
    convertTo T N E swap dest off w = dest.write off (convertBytes T E w)
  /-- The bytes that were written are read back, and the words have nothing else that is new. -/
  read : ∀ {n : Nat} (ws old : Vector W n) (bytes : Buf UInt8 len), len ≤ T.size * n →
    bytes.toList = (copyOut T E ws).take len →
    ∃ mem, copyCarefully N E (memory T N old) bytes len T.size = some mem ∧
      copyOut T E (copyIn T N n mem.toList) = bytes.toList ++ (copyOut T E old).drop len ∧
      (T.size ∣ len →
        copySized N E (memory T N old) bytes len T.size = some mem ∧
        copyFrom T N E swap (memory T N old) bytes len = some mem ∧
        ∀ aligned, ∃ buf, copyIfNeeded T N E swap aligned (memory T N old) bytes len =
          some (buf, mem.toList.take len) ∧ (buf = mem ∨ buf = memory T N old))
  readWord : ∀ {k : Nat} (w : W) (src : Buf UInt8 k) (off : Nat), src.Holds off (convertBytes T E w) →
    convertFrom T N E swap src off = some w

end Meaning

/-! ## Writing -/

namespace Buf

variable {m : Nat} {v w : Buf UInt8 m} {off : Nat} {xs ys : List UInt8}

theorem write_eq_of_holds (hxs : w.Holds off xs) (hsame : SameOutside v w off xs.length) :
    v.write off xs = some w := by
  obtain ⟨w', hw'⟩ := exists_write_at v off xs hxs.1
  have heq : ∀ i : Nat, w'[i]? = w[i]? := by
    intro i
    rw [getElem?_write hw']
    by_cases hlo : i < off
    · rw [if_pos hlo, hsame i (Or.inl hlo)]
    · by_cases hhi : i < off + xs.length
      · rw [if_neg hlo, if_pos hhi, ← hxs.2 (i - off) (by omega), Nat.add_sub_cancel' (by omega)]
      · rw [if_neg hlo, if_neg hhi, hsame i (Or.inr (by omega))]
  rw [hw']
  congr 1
  apply Vector.ext
  intro i hi
  have hi' := heq i
  simpa [hi] using hi'

/-- Writing behind what was written. -/
theorem write_append (h : v.write off xs = some w) : w.write (off + xs.length) ys = v.write off (xs ++ ys) := by
  by_cases hfit : off + xs.length + ys.length ≤ m
  · obtain ⟨u, hu⟩ := exists_write_at w (off + xs.length) ys hfit
    rw [hu]
    symm
    apply write_eq_of_holds
    · exact ((holds_write h).write_of_disjoint hu (Or.inr le_rfl)).append (holds_write hu)
    · rw [List.length_append]
      exact ((sameOutside_write h).mono le_rfl (by omega)).trans ((sameOutside_write hu).mono (by omega) (by omega))
  · rw [Buf.write, dif_neg hfit, Buf.write, dif_neg (by rw [List.length_append]; omega)]

theorem store_eq_write (v : Buf UInt8 m) (i : Nat) (x : UInt8) : v.store i x = v.write i [x] := by
  by_cases hi : i < m
  · rw [store_of_lt v x hi]
    symm
    apply write_eq_of_holds (holds_set_same v x hi)
    intro j hj
    rw [List.length_singleton] at hj
    rw [Vector.getElem?_set, if_neg (by omega)]
  · rw [store_none v x (by omega), Buf.write, dif_neg (by simpa using hi)]

end Buf

section Copies

variable {m k : Nat} {out : List UInt8}

theorem memcpy_eq {dest : Buf UInt8 m} {src : Buf UInt8 k} {d s len : Nat} (hout : src.Holds s out)
    (hlen : out.length = len) : memcpy dest d src s len = dest.write d out := by
  rw [memcpy, ← hlen, hout.read]
  rfl

/-- A loop that writes one piece behind the other. -/
theorem foldlM_write {f : Buf UInt8 m → Nat → Option (Buf UInt8 m)} {d c : Nat} {g : Nat → List UInt8}
    (hd : d ≤ m)
    (hstep : ∀ i < c, d + ((List.range i).flatMap g).length ≤ m → ∀ dest : Buf UInt8 m,
      f dest i = dest.write (d + ((List.range i).flatMap g).length) (g i)) (v : Buf UInt8 m) :
    (List.range c).foldlM f v = v.write d ((List.range c).flatMap g) := by
  induction c with
  | zero => exact (Buf.write_nil v hd).symm
  | succ c ih =>
    rw [List.range_succ, List.foldlM_append, ih fun i hi => hstep i (by omega), List.flatMap_append,
      List.flatMap_singleton]
    by_cases hfit : d + ((List.range c).flatMap g).length ≤ m
    · obtain ⟨u, hu⟩ := Buf.exists_write_at v d ((List.range c).flatMap g) hfit
      rw [hu, ← Buf.write_append hu, ← hstep c (Nat.lt_succ_self c) hfit u]
      show [c].foldlM f u = _
      simp
    · rw [Buf.write, dif_neg hfit, Buf.write, dif_neg (by rw [List.length_append]; omega)]
      rfl

theorem copyByte_eq {src : Buf UInt8 k} {d s sz blk j : Nat} {x : UInt8} (dest : Buf UInt8 m)
    (hx : src.load (s + (blk + (sz - j - 1))) = some x) :
    copyByte d src s sz blk dest j = dest.write (d + (blk + j)) [x] := by
  rw [copyByte, hx]
  exact Buf.store_eq_write _ _ _

theorem take_one_drop {xs : List UInt8} {i : Nat} (hi : i < xs.length) : (xs.drop i).take 1 = [xs[i]] := by
  rw [List.drop_eq_getElem_cons hi, List.take_succ_cons, List.take_zero]

/-- The inner loop. -/
theorem copyBlock_eq {src : Buf UInt8 k} {d s sz blk c : Nat} (hc : blk + c ≤ out.length) (hd : d + blk ≤ m)
    (hout : ∀ j < c, src.load (s + (blk + (sz - j - 1))) = out[blk + j]?) (dest : Buf UInt8 m) :
    (List.range c).foldlM (copyByte d src s sz blk) dest = dest.write (d + blk) ((out.drop blk).take c) := by
  have hpieces : ∀ i, (List.range i).flatMap (fun j => ((out.drop blk).drop (1 * j)).take 1) =
      (out.drop blk).take (1 * i) := flatMap_chunks 1 (out.drop blk)
  have hrun := foldlM_write (f := copyByte d src s sz blk) (d := d + blk) (c := c)
    (g := fun j => ((out.drop blk).drop (1 * j)).take 1) hd ?_ dest
  · rw [hrun, hpieces, Nat.one_mul]
  · intro j hj _ dest
    have hx := hout j hj
    rw [List.getElem?_eq_getElem (by omega)] at hx
    rw [hpieces, Nat.one_mul, List.length_take, List.length_drop, Nat.min_eq_left (by omega), List.drop_drop,
      take_one_drop (by omega), copyByte_eq dest hx, Nat.add_assoc]

/-- What `CopyBackwards` writes, if the byte for each place is known. -/
theorem copyBackwards_eq {src : Buf UInt8 k} {d s len sz : Nat} (hsz : 0 < sz) (hlen : out.length = len)
    (hd : d ≤ m)
    (hout : ∀ b j, j < sz → sz * b + j < len → src.load (s + (sz * b + (sz - j - 1))) = out[sz * b + j]?)
    (dest : Buf UInt8 m) : copyBackwards dest d src s len sz = dest.write d out := by
  have hpieces : ∀ b, (List.range b).flatMap (fun b => (out.drop (sz * b)).take sz) = out.take (sz * b) :=
    flatMap_chunks sz out
  have hceil : len ≤ sz * ((len + sz - 1) / sz) := by
    have hdiv := Nat.div_add_mod (len + sz - 1) sz
    have hmod := Nat.mod_lt (len + sz - 1) hsz
    omega
  have hblock : ∀ b < (len + sz - 1) / sz, sz * b < len := by
    intro b hb
    have hle := (Nat.le_div_iff_mul_le hsz).mp hb
    rw [Nat.succ_mul, Nat.mul_comm] at hle
    omega
  rw [copyBackwards, foldlM_write (g := fun b => (out.drop (sz * b)).take sz) hd, hpieces,
    List.take_of_length_le (by omega)]
  intro b hb hfit dest
  have hlt := hblock b hb
  have hmin : min (sz * b) out.length = sz * b := by omega
  rw [hpieces, List.length_take, hmin] at hfit ⊢
  show (List.range (min sz (len - b * sz))).foldlM (copyByte d src s sz (b * sz)) dest = _
  have hcount : (out.drop (sz * b)).take (min sz (len - sz * b)) = (out.drop (sz * b)).take sz := by
    rw [← List.take_take, List.take_of_length_le (i := len - sz * b)]
    rw [List.length_drop, hlen]
  rw [Nat.mul_comm b sz, @copyBlock_eq _ _ out _ _ _ _ _ _ (by omega) hfit]
  · rw [hcount]
  · intro j hj
    exact hout b j (by omega) (by omega)

end Copies

/-! ## Words in both orders -/

section Orders

variable {W : Type} {T : WordType W} {N E : Endian}

theorem order_reverse (bs : List UInt8) : (N.order bs).reverse = N.order bs.reverse := by
  cases N <;> rfl

theorem convertBytes_of_ne (h : N ≠ E) (w : W) : convertBytes T E w = (convertBytes T N w).reverse := by
  cases N with
  | big =>
    cases E with
    | big => exact absurd rfl h
    | little => rfl
  | little =>
    cases E with
    | big => exact (List.reverse_reverse _).symm
    | little => exact absurd rfl h

/-- The bytes from the least significant one on, after `i` rounds of `ByteSwap`. -/
theorem foldl_byteSwap (size x : Nat) {i : Nat} (hi : i ≤ size) :
    (List.range i).foldl (fun p i => p ||| (x >>> (i * 8) &&& 0xff) <<< ((size - i - 1) * 8)) 0 =
      beNat ((beBytes size x).reverse.take i) * 256 ^ (size - i) := by
  induction i with
  | zero =>
    have hnil : beNat ((beBytes size x).reverse.take 0) = 0 := rfl
    rw [hnil, Nat.zero_mul]
    rfl
  | succ i ih =>
    have hlen : (beBytes size x).length = size := length_beBytes _ _
    have hbyte : (beBytes size x).reverse[i]? = some (UInt8.ofNat (x / 256 ^ i)) := by
      rw [List.getElem?_reverse (by omega), hlen, getElem?_beBytes _ _ (by omega),
        show size - 1 - (size - 1 - i) = i by omega]
    obtain ⟨M, hM⟩ : ∃ M, M = size - i - 1 := ⟨_, rfl⟩
    obtain ⟨A, hA⟩ : ∃ A, A = beNat ((beBytes size x).reverse.take i) := ⟨_, rfl⟩
    obtain ⟨c, hc⟩ : ∃ c, c = x / 256 ^ i % 256 := ⟨_, rfl⟩
    have hclt : c < 2 ^ 8 := by omega
    have hand : x >>> (i * 8) &&& 0xff = c := by
      rw [Nat.shiftRight_eq_div_pow, Nat.mul_comm i 8, pow_mul, hc]
      exact Nat.and_two_pow_sub_one_eq_mod _ 8
    have hor : A * 256 ||| c = A * 256 + c := by
      have hadd := Nat.shiftLeft_add_eq_or_of_lt hclt A
      rw [Nat.shiftLeft_eq] at hadd
      exact hadd.symm
    have hlast : beNat [UInt8.ofNat (x / 256 ^ i)] = c := by
      rw [hc]
      exact (beVal_singleton _).trans UInt8.toNat_ofNat'
    have hpow : (256 : Nat) ^ M = 2 ^ (M * 8) := by
      rw [Nat.mul_comm M 8, pow_mul]
      norm_num
    rw [List.range_succ, List.foldl_append, ih (by omega), List.foldl_cons, List.foldl_nil,
      List.take_add_one, hbyte, Option.toList_some, beNat_append, ← hA, hand, ← hM,
      show size - (i + 1) = M by omega,
      show size - i = M + 1 by omega, pow_succ, ← Nat.mul_assoc, Nat.mul_right_comm, hpow, ← Nat.shiftLeft_eq,
      ← Nat.shiftLeft_or_distrib, ← Nat.shiftLeft_eq, hor, hlast, List.length_singleton, pow_one]

theorem convertBytes_byteSwap (w : W) : convertBytes T N (byteSwap T w) = (convertBytes T N w).reverse := by
  obtain ⟨r, hr⟩ : ∃ r, r = (beBytes T.size (T.toNat w)).reverse := ⟨_, rfl⟩
  have hlen : r.length = T.size := by rw [hr, List.length_reverse, length_beBytes]
  have hfold := foldl_byteSwap T.size (T.toNat w) le_rfl
  rw [Nat.sub_self, pow_zero, Nat.mul_one, ← hr, List.take_of_length_le hlen.le] at hfold
  have hlt : beNat r < 256 ^ T.size := hlen ▸ beNat_lt r
  have hbytes : beBytes T.size (beNat r) = r := hlen ▸ beBytes_beNat r
  rw [convertBytes, byteSwap, hfold, T.toNat_ofNat hlt, hbytes, hr, convertBytes, order_reverse]

/-- The place of a byte in the other order. -/
theorem getElem?_convertBytes_of_ne (h : N ≠ E) (w : W) {j : Nat} (hj : j < T.size) :
    (convertBytes T N w)[T.size - j - 1]? = (convertBytes T E w)[j]? := by
  have hlen : (convertBytes T N w).length = T.size := length_convertBytes w
  rw [convertBytes_of_ne h, List.getElem?_reverse (by omega), hlen]
  congr 1
  omega

theorem getElem?_copyOut_block {n : Nat} (ws : Vector W n) (b j : Nat) (hb : b < n) (hj : j < T.size) :
    (copyOut T E ws)[T.size * b + j]? = (convertBytes T E (ws.get ⟨b, hb⟩))[j]? := by
  have hpiece : ((copyOut T E ws).drop (T.size * b)).take T.size = convertBytes T E (ws.get ⟨b, hb⟩) :=
    take_drop_flatMap (f := convertBytes T E) length_convertBytes ws.toList b (by rwa [Vector.length_toList])
  rw [← hpiece, List.getElem?_take_of_lt hj, List.getElem?_drop]

theorem getElem?_copyOut_of_ne (h : N ≠ E) {n : Nat} (ws : Vector W n) {b j : Nat} (hb : b < n) (hj : j < T.size) :
    (copyOut T N ws)[T.size * b + (T.size - j - 1)]? = (copyOut T E ws)[T.size * b + j]? := by
  rw [getElem?_copyOut_block ws b _ hb (by omega), getElem?_copyOut_block ws b j hb hj,
    getElem?_convertBytes_of_ne h _ hj]

end Orders

/-! ## One word -/

section Word

variable {W : Type} {T : WordType W} {N E : Endian} {swap : Bool} {m k : Nat}

theorem holds_ofList {xs : List UInt8} (h : xs.length = m) : (Buf.ofList xs h).Holds 0 xs :=
  Buf.holds_toList (Buf.ofList xs h)

/-- A word in the other order. -/
theorem copyBackwards_word (hsize : 0 < T.size) (h : N ≠ E) {w : W} {src : Buf UInt8 k} {s : Nat}
    (hsrc : src.Holds s (convertBytes T E w)) (dest : Buf UInt8 m) {d : Nat} (hd : d ≤ m) :
    copyBackwards dest d src s T.size T.size = dest.write d (convertBytes T N w) := by
  apply copyBackwards_eq hsize (length_convertBytes w) hd
  intro b j hj hlt
  obtain rfl : b = 0 := by
    rcases Nat.eq_zero_or_pos b with hb | hb
    · exact hb
    · have hle := Nat.le_mul_of_pos_right T.size hb
      omega
  rw [Nat.mul_zero, Nat.zero_add, Nat.zero_add, ← getElem?_convertBytes_of_ne (Ne.symm h) w hj]
  exact hsrc.2 _ (by rw [length_convertBytes]; omega)

theorem convertTo_eq (hsize : 0 < T.size) (w : W) (dest : Buf UInt8 m) {off : Nat} (hoff : off ≤ m) :
    convertTo T N E swap dest off w = dest.write off (convertBytes T E w) := by
  unfold convertTo
  split
  · rename_i h
    rw [h]
    exact memcpy_eq (holds_ofList _) (length_convertBytes w)
  · rename_i h
    split
    · rw [convertBytes_of_ne h, ← convertBytes_byteSwap]
      exact memcpy_eq (holds_ofList _) (length_convertBytes _)
    · exact copyBackwards_word hsize (Ne.symm h) (holds_ofList _) dest hoff

theorem byteSwap_byteSwap (w : W) : byteSwap T (byteSwap T w) = w := by
  have hbytes : convertBytes T .big (byteSwap T (byteSwap T w)) = convertBytes T .big w := by
    rw [convertBytes_byteSwap, convertBytes_byteSwap, List.reverse_reverse]
  have hback := congrArg (convert T .big) hbytes
  rwa [convert_convertBytes, convert_convertBytes] at hback

theorem convertFrom_eq (hsize : 0 < T.size) {w : W} {src : Buf UInt8 k} {off : Nat}
    (hsrc : src.Holds off (convertBytes T E w)) : convertFrom T N E swap src off = some w := by
  have hread := hsrc.read
  rw [length_convertBytes] at hread
  unfold convertFrom
  split
  · rename_i h
    rw [hread, Option.map_some, h, convert_convertBytes]
  · rename_i h
    split
    · rw [hread, Option.map_some, convertBytes_of_ne h, ← convertBytes_byteSwap, convert_convertBytes,
        byteSwap_byteSwap]
    · obtain ⟨x, hx⟩ := Buf.exists_write_at (Vector.replicate T.size 0) 0 (convertBytes T N w)
        (by rw [length_convertBytes, Nat.zero_add])
      rw [copyBackwards_word hsize h hsrc _ (Nat.zero_le _), hx, Option.map_some,
        (Buf.holds_write hx).toList (length_convertBytes w), convert_convertBytes]

end Word

/-! ## Many words -/

section Many

variable {W : Type} {T : WordType W} {N E : Endian} {swap : Bool} {n m k len : Nat}

theorem holds_memory (ws : Vector W n) : (memory T N ws).Holds 0 (copyOut T N ws) := holds_ofList _

theorem length_take_copyOut {e : Endian} (ws : Vector W n) (hlen : len ≤ T.size * n) :
    ((copyOut T e ws).take len).length = len := by
  rw [List.length_take, length_copyOut]
  omega

/-- Words between different orders, of which the source has `L` bytes. -/
theorem copyBackwards_words (hsize : 0 < T.size) (h : N ≠ E) {ws : Vector W n} {src : Buf UInt8 k} {L : Nat}
    (hsrc : src.Holds 0 ((copyOut T E ws).take L)) (hL : L ≤ T.size * n)
    (hround : ∀ b, T.size * b < len → T.size * b + T.size ≤ L) (hlen : len ≤ T.size * n) (dest : Buf UInt8 m) :
    copyBackwards dest 0 src 0 len T.size = dest.write 0 ((copyOut T N ws).take len) := by
  apply copyBackwards_eq hsize (length_take_copyOut ws hlen) (Nat.zero_le _)
  intro b j hj hlt
  have hfit := hround b (by omega)
  have hb : b < n := by
    by_contra hge
    have hle := Nat.mul_le_mul_left T.size (not_lt.mp hge)
    omega
  have hget := hsrc.2 (T.size * b + (T.size - j - 1)) (by rw [length_take_copyOut ws hL]; omega)
  rw [List.getElem?_take_of_lt (by omega), getElem?_copyOut_of_ne (Ne.symm h) ws hb hj] at hget
  rw [List.getElem?_take_of_lt hlt, ← hget]
  rfl

/-- A copy in the order of the machine. -/
theorem memcpy_words {ws : Vector W n} {src : Buf UInt8 k} {L : Nat}
    (hsrc : src.Holds 0 ((copyOut T E ws).take L)) (hle : len ≤ L) (hlen : len ≤ T.size * n) (dest : Buf UInt8 m) :
    memcpy dest 0 src 0 len = dest.write 0 ((copyOut T E ws).take len) := by
  apply memcpy_eq _ (length_take_copyOut ws hlen)
  have hsplit := (List.take_append_drop len ((copyOut T E ws).take L)).symm
  rw [List.take_take, Nat.min_eq_left hle] at hsplit
  rw [hsplit] at hsrc
  exact hsrc.left

theorem copyCarefully_to (hsize : 0 < T.size) (ws : Vector W n) (dest : Buf UInt8 m) (hlen : len ≤ T.size * n) :
    copyCarefully N E dest (memory T N ws) len T.size = dest.write 0 ((copyOut T E ws).take len) := by
  have hsrc : (memory T N ws).Holds 0 ((copyOut T N ws).take (T.size * n)) := by
    rw [List.take_of_length_le (length_copyOut ws).le]
    exact holds_memory ws
  unfold copyCarefully
  split
  · rename_i h
    rw [← h]
    exact memcpy_words hsrc hlen hlen dest
  · rename_i h
    apply copyBackwards_words hsize (Ne.symm h) hsrc le_rfl _ hlen
    intro b hb
    have hlt : b < n := Nat.lt_of_mul_lt_mul_left (lt_of_lt_of_le hb hlen)
    exact Nat.mul_le_mul_left T.size hlt

/-! ### Whole words -/

variable {q : Nat}

theorem rounds_eq (hsize : 0 < T.size) : (T.size * q + T.size - 1) / T.size = q := by
  rw [Nat.add_sub_assoc hsize, Nat.mul_add_div hsize, Nat.div_eq_of_lt (by omega), Nat.add_zero]

theorem take_drop_copyOut (ws : Vector W n) (hq : q ≤ n) {i : Nat} (hi : i < q) :
    (((copyOut T E ws).take (T.size * q)).drop (T.size * i)).take T.size =
      convertBytes T E (ws.get ⟨i, hi.trans_le hq⟩) := by
  have hle := Nat.mul_le_mul_left T.size (Nat.succ_le_of_lt hi)
  rw [Nat.mul_succ] at hle
  rw [List.drop_take, List.take_take, Nat.min_eq_left (by omega)]
  exact take_drop_flatMap (f := convertBytes T E) length_convertBytes ws.toList i
    (by rw [Vector.length_toList]; omega)

/-- A loop that writes one word behind the other. -/
theorem foldlM_write_words {f : Buf UInt8 m → Nat → Option (Buf UInt8 m)} {ws : Vector W n} (hq : q ≤ n)
    (hstep : ∀ i (hi : i < q), T.size * i ≤ m → ∀ dest : Buf UInt8 m,
      f dest i = dest.write (T.size * i) (convertBytes T E (ws.get ⟨i, hi.trans_le hq⟩))) (dest : Buf UInt8 m) :
    (List.range q).foldlM f dest = dest.write 0 ((copyOut T E ws).take (T.size * q)) := by
  obtain ⟨out, hout⟩ : ∃ out, out = (copyOut T E ws).take (T.size * q) := ⟨_, rfl⟩
  have hlen : out.length = T.size * q := hout ▸ length_take_copyOut ws (Nat.mul_le_mul_left _ hq)
  have hpieces : ∀ i, (List.range i).flatMap (fun i => (out.drop (T.size * i)).take T.size) =
      out.take (T.size * i) := flatMap_chunks T.size out
  rw [foldlM_write (g := fun i => (out.drop (T.size * i)).take T.size) (Nat.zero_le _), hpieces,
    List.take_of_length_le hlen.le, ← hout]
  intro i hi hfit dest
  have hle : T.size * i ≤ T.size * q := Nat.mul_le_mul_left _ hi.le
  rw [hpieces, List.length_take, Nat.zero_add, Nat.min_eq_left (by omega)] at hfit ⊢
  rw [hstep i hi hfit, hout, take_drop_copyOut ws hq hi]

theorem holds_word {src : Buf UInt8 k} {ws : Vector W n} (hq : q ≤ n)
    (hsrc : src.Holds 0 ((copyOut T E ws).take (T.size * q))) {i : Nat} (hi : i < q) :
    src.Holds (i * T.size) (convertBytes T E (ws.get ⟨i, hi.trans_le hq⟩)) := by
  have hle := Nat.mul_le_mul_left T.size (Nat.succ_le_of_lt hi)
  rw [Nat.mul_succ] at hle
  have hlen := length_take_copyOut (e := E) ws (Nat.mul_le_mul_left T.size hq)
  have hfit := hsrc.1
  refine ⟨by rw [length_convertBytes, Nat.mul_comm]; omega, fun j hj => ?_⟩
  rw [length_convertBytes] at hj
  rw [← take_drop_copyOut ws hq hi, List.getElem?_take_of_lt hj, List.getElem?_drop, Nat.mul_comm i]
  have hget := hsrc.2 (T.size * i + j) (by omega)
  rwa [Nat.zero_add] at hget

theorem copyTo_eq (hsize : 0 < T.size) (ws : Vector W n) (dest : Buf UInt8 m) (hq : q ≤ n) :
    copyTo T N E swap dest (memory T N ws) (T.size * q) = dest.write 0 ((copyOut T E ws).take (T.size * q)) := by
  have hle := Nat.mul_le_mul_left T.size hq
  have hsrc : (memory T N ws).Holds 0 ((copyOut T N ws).take (T.size * q)) := by
    have hall := holds_memory (T := T) (N := N) ws
    rw [← List.take_append_drop (T.size * q) (copyOut T N ws)] at hall
    exact hall.left
  unfold copyTo
  split
  · rename_i h
    rw [← h]
    exact memcpy_words hsrc le_rfl hle dest
  · rw [rounds_eq hsize]
    apply foldlM_write_words hq
    intro i hi hfit dest
    have hread := (holds_word hq hsrc hi).read
    rw [length_convertBytes] at hread
    simp only [hread, Option.map_some, convert_convertBytes, Option.bind_eq_bind, Option.bind_some]
    rw [Nat.mul_comm i]
    exact convertTo_eq hsize _ dest hfit

theorem copyFrom_eq (hsize : 0 < T.size) {ws : Vector W n} {src : Buf UInt8 k} (hq : q ≤ n)
    (hsrc : src.Holds 0 ((copyOut T E ws).take (T.size * q))) (dest : Buf UInt8 m) :
    copyFrom T N E swap dest src (T.size * q) = dest.write 0 ((copyOut T N ws).take (T.size * q)) := by
  have hle := Nat.mul_le_mul_left T.size hq
  unfold copyFrom
  split
  · rename_i h
    rw [h]
    exact memcpy_words hsrc le_rfl hle dest
  · rw [rounds_eq hsize]
    apply foldlM_write_words hq
    intro i hi _ dest
    have hword : convertFrom T N E swap src (i * T.size) = some (ws.get ⟨i, hi.trans_le hq⟩) :=
      convertFrom_eq hsize (holds_word hq hsrc hi)
    simp only [hword, Option.bind_eq_bind, Option.bind_some]
    rw [Nat.mul_comm i]

/-- Reading with the length of whole words, or in the order of the machine. -/
theorem copyCarefully_from (hsize : 0 < T.size) {ws : Vector W n} {src : Buf UInt8 k} (hlen : len ≤ T.size * n)
    (hright : N = E ∨ T.size ∣ len) (hsrc : src.Holds 0 ((copyOut T E ws).take len)) (dest : Buf UInt8 m) :
    copyCarefully N E dest src len T.size = dest.write 0 ((copyOut T N ws).take len) := by
  unfold copyCarefully
  split
  · rename_i h
    rw [h]
    exact memcpy_words hsrc le_rfl hlen dest
  · rename_i h
    obtain ⟨q, rfl⟩ := hright.resolve_left h
    apply copyBackwards_words hsize h hsrc hlen _ hlen
    intro b hb
    exact Nat.mul_le_mul_left T.size (Nat.lt_of_mul_lt_mul_left hb)

/-- The words that are read, before those that were there. -/
theorem copyOut_written (hsize : 0 < T.size) {ws old : Vector W n} {mem : Buf UInt8 (T.size * n)}
    (hlen : len ≤ T.size * n) (hright : N = E ∨ T.size ∣ len)
    (hmem : (memory T N old).write 0 ((copyOut T N ws).take len) = some mem) :
    mem.toList = (copyOut T N ws).take len ++ (copyOut T N old).drop len ∧
      copyOut T E (copyIn T N n mem.toList) = (copyOut T E ws).take len ++ (copyOut T E old).drop len := by
  have hlist : mem.toList = (copyOut T N ws).take len ++ (copyOut T N old).drop len := by
    rw [Buf.write, dif_pos (by rw [length_take_copyOut ws hlen]; omega)] at hmem
    rw [← Option.some.inj hmem]
    show [] ++ _ ++ (copyOut T N old).drop (0 + _) = _
    rw [length_take_copyOut ws hlen, Nat.zero_add, List.nil_append]
  refine ⟨hlist, ?_⟩
  rcases hright with rfl | ⟨q, rfl⟩
  · rw [copyOut_copyIn (by rw [Vector.length_toList]), hlist]
  · have hwords : (ws.toList.take q ++ old.toList.drop q).length = n := by
      have hq : q ≤ n := Nat.le_of_mul_le_mul_left hlen hsize
      rw [List.length_append, List.length_take, List.length_drop, Vector.length_toList, Vector.length_toList]
      omega
    have hbytes : ∀ e, copyOut T e (Buf.ofList _ hwords) =
        (copyOut T e ws).take (T.size * q) ++ (copyOut T e old).drop (T.size * q) := by
      intro e
      rw [copyOut, copyOut, copyOut, take_flatMap length_convertBytes, drop_flatMap length_convertBytes,
        ← List.flatMap_append]
      rfl
    rw [hlist, ← hbytes, copyIn_copyOut, hbytes]

/-! ### A part of a word -/

theorem foldlM_none {α β : Type} {f : β → α → Option β} {l : List α} {a : α} (ha : a ∈ l)
    (hf : ∀ b, f b a = none) (b : β) : l.foldlM f b = none := by
  induction l generalizing b with
  | nil => exact absurd ha List.not_mem_nil
  | cons x l ih =>
    rw [List.foldlM_cons]
    rcases List.mem_cons.mp ha with rfl | ha'
    · rw [hf]
      rfl
    · cases f b x with
      | none => rfl
      | some b' => exact ih ha' b'

/-- The first byte of the last word is read from behind the source. -/
theorem copyCarefully_past_end (hsize : 0 < T.size) (hne : N ≠ E) (hpart : ¬ T.size ∣ len) (dest : Buf UInt8 m)
    (src : Buf UInt8 len) : copyCarefully N E dest src len T.size = none := by
  obtain ⟨q, hq⟩ : ∃ q, q = len / T.size := ⟨_, rfl⟩
  have hmod : 0 < len % T.size := Nat.pos_of_ne_zero fun h0 => hpart (Nat.dvd_of_mod_eq_zero h0)
  have hlt := Nat.mod_lt len hsize
  have hdiv := Nat.div_add_mod len T.size
  rw [← hq, Nat.mul_comm] at hdiv
  have hmem : q ∈ List.range ((len + T.size - 1) / T.size) := by
    rw [List.mem_range]
    apply (Nat.le_div_iff_mul_le hsize).mpr
    rw [Nat.succ_mul]
    omega
  rw [copyCarefully, if_neg hne, copyBackwards]
  apply foldlM_none hmem
  intro b
  have hzero : 0 ∈ List.range (min T.size (len - q * T.size)) := by
    rw [List.mem_range]
    omega
  apply foldlM_none hzero
  intro b'
  rw [copyByte, Buf.load_none src (by omega)]
  rfl

theorem not_copiesRight (hsize : 0 < T.size) (hne : N ≠ E) (hpart : ¬ T.size ∣ len) :
    ¬ CopiesRight T N E swap len := by
  intro h
  have hlen : len ≤ T.size * len := Nat.le_mul_of_pos_left len hsize
  obtain ⟨ws, -⟩ : ∃ ws : Vector W len, ws = Vector.replicate len (T.ofNat 0) := ⟨_, rfl⟩
  obtain ⟨mem, hmem, -, -⟩ := h.read ws ws
    (Buf.ofList ((copyOut T E ws).take len) (length_take_copyOut ws hlen)) hlen rfl
  rw [copyCarefully_past_end hsize hne hpart] at hmem
  cases hmem

end Many

/-! ## All helpers -/

section All

variable {W : Type} {T : WordType W} {N E : Endian} {swap : Bool} {n len : Nat}

theorem copySized_eq : @copySized = @copyCarefully := rfl

/-- Whole words, through the buffer or not. -/
theorem copyIfNeeded_eq {ws old : Vector W n} {bytes : Buf UInt8 len} {mem : Buf UInt8 (T.size * n)}
    (hlen : len ≤ T.size * n) (hbytes : bytes.toList = (copyOut T E ws).take len)
    (hmem : mem.toList.take len = (copyOut T N ws).take len)
    (hcopy : copyFrom T N E swap (memory T N old) bytes len = some mem) (aligned : Bool) :
    ∃ buf, copyIfNeeded T N E swap aligned (memory T N old) bytes len = some (buf, mem.toList.take len) ∧
      (buf = mem ∨ buf = memory T N old) := by
  unfold copyIfNeeded
  split
  · rename_i h
    refine ⟨_, ?_, Or.inr rfl⟩
    have hread : bytes.read 0 len = some bytes.toList := by
      have hall := (Buf.holds_toList bytes).read
      rwa [Vector.length_toList] at hall
    rw [hread, Option.map_some, hbytes, h.1, ← hmem]
  · have hread : mem.read 0 len = some (mem.toList.take len) := by
      rw [Buf.read, if_pos (by omega), List.drop_zero]
    refine ⟨mem, ?_, Or.inl rfl⟩
    simp only [hcopy, hread, Option.bind_eq_bind, Option.bind_some, pure]

theorem copiesRight_of (hsize : 0 < T.size) (hright : N = E ∨ T.size ∣ len) : CopiesRight T N E swap len where
  write ws dest hlen _ := by
    refine ⟨copyCarefully_to hsize ws dest hlen, ?_⟩
    rintro ⟨q, rfl⟩
    exact ⟨copyCarefully_to hsize ws dest hlen,
      copyTo_eq hsize ws dest (Nat.le_of_mul_le_mul_left hlen hsize)⟩
  writeWord w dest off hoff := convertTo_eq hsize w dest (by omega)
  read {n} ws old bytes hlen hbytes := by
    have hsrc : bytes.Holds 0 ((copyOut T E ws).take len) := hbytes ▸ Buf.holds_toList bytes
    obtain ⟨mem, hmem⟩ := Buf.exists_write_at (memory T N old) 0 ((copyOut T N ws).take len)
      (by rw [length_take_copyOut ws hlen]; omega)
    obtain ⟨hlist, hwords⟩ := copyOut_written hsize hlen hright hmem
    have hcarefully := (copyCarefully_from hsize hlen hright hsrc (memory T N old)).trans hmem
    refine ⟨mem, hcarefully, by rw [hwords, hbytes], ?_⟩
    rintro ⟨q, rfl⟩
    have hq : q ≤ n := Nat.le_of_mul_le_mul_left hlen hsize
    have hcopy : copyFrom T N E swap (memory T N old) bytes (T.size * q) = some mem :=
      (copyFrom_eq hsize hq hsrc (memory T N old)).trans hmem
    have htake : mem.toList.take (T.size * q) = (copyOut T N ws).take (T.size * q) := by
      rw [hlist, List.take_left' (length_take_copyOut ws hlen)]
    exact ⟨hcarefully, hcopy, copyIfNeeded_eq hlen hbytes htake hcopy⟩
  readWord _ _ _ hsrc := convertFrom_eq hsize hsrc

/-- The helpers agree, except that `CopyCarefully` does not read a part of a word from the other order. -/
theorem copies_right_iff (T : WordType W) (hsize : 0 < T.size) (N E : Endian) (swap : Bool) (len : Nat) :
    CopiesRight T N E swap len ↔ N = E ∨ T.size ∣ len := by
  constructor
  · intro h
    by_contra hwrong
    obtain ⟨hne, hpart⟩ := not_or.mp hwrong
    exact not_copiesRight hsize hne hpart h
  · exact copiesRight_of hsize

def word8 : WordType UInt8 where
  size := 1
  toNat := UInt8.toNat
  ofNat := UInt8.ofNat
  toNat_lt w := w.toNat_lt
  ofNat_toNat _ := UInt8.ofNat_toNat
  toNat_ofNat h := UInt8.toNat_ofNat_of_lt' h

def word16 : WordType UInt16 where
  size := 2
  toNat := UInt16.toNat
  ofNat := UInt16.ofNat
  toNat_lt w := w.toNat_lt
  ofNat_toNat _ := UInt16.ofNat_toNat
  toNat_ofNat h := UInt16.toNat_ofNat_of_lt' h

theorem copies_right_iff_sizes :
    (CopiesRight word8 .little .big true 3 ↔ Endian.little = .big ∨ 1 ∣ 3) ∧
    (CopiesRight word16 .big .little false 6 ↔ Endian.big = .little ∨ 2 ∣ 6) ∧
    (CopiesRight word32 .little .big false 5 ↔ Endian.little = .big ∨ 4 ∣ 5) ∧
    (CopiesRight word64 .big .big true 13 ↔ Endian.big = .big ∨ 8 ∣ 13) :=
  ⟨copies_right_iff word8 (by decide) _ _ _ _, copies_right_iff word16 (by decide) _ _ _ _,
    copies_right_iff word32 (by decide) _ _ _ _, copies_right_iff word64 (by decide) _ _ _ _⟩

/-- Five bytes to words in little-endian order, on a big-endian machine: the byte behind the next three is read. -/
theorem part_read_past_end :
    copyCarefully .big .little (memory word32 .big #v[0, 0]) (#v[1, 2, 3, 4, 5] : Buf UInt8 5) 5 4 = none ∧
    ¬ CopiesRight word32 .big .little false 5 :=
  ⟨by decide, not_copiesRight (by decide) (by decide) (by decide)⟩

end All

end Drew.Memory
