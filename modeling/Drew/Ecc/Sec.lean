import Mathlib.Data.Nat.Size
import Mathlib.Tactic
import Drew.Ecc.Model
import Drew.Error
import Drew.Memory.BigEndian

/-!
# Points as bytes

`store_point` and `load_point`: a point is a byte 4 and its coordinates, each with the bytes of the field,
or a byte 0 for infinity. A read or a write beyond the bytes of the caller is undefined (`none`).

`load_point` takes half of the length for a coordinate and does not compare it with the field, so it takes
any odd length, and for an even length it reads one byte too many.
-/

namespace Drew.Ecc

open Drew.Bignum Drew.Memory

/-! ## The functions -/

/-- `DREW_ECC_POINT_X`, `Y`, `SEC` and `SEC_COMPRESSED`. -/
inductive Coord
  | x
  | y
  | sec
  | secCompressed

/-- Bytes of a string from an offset. -/
def readAt (bs : List UInt8) (off len : Nat) : Option (List UInt8) :=
  if off + len ≤ bs.length then some ((bs.drop off).take len) else none

/-- Bytes over those of a buffer from an offset. -/
def writeAt (buf : List UInt8) (off : Int) (bs : List UInt8) : Option (List UInt8) :=
  if 0 ≤ off ∧ off.toNat + bs.length ≤ buf.length then
    some (buf.take off.toNat ++ bs ++ buf.drop (off.toNat + bs.length))
  else none

/-- `bytes` of a number. -/
def bytes (a : Int) : List UInt8 := beBytes (nbytes a) a.natAbs

/-- `setbytes`. -/
def setbytes (bs : List UInt8) : Int := beNat bs

/-- The code and the buffer. -/
def store_point (pt : Point) (p : List UInt8) : Option (Int × List UInt8) :=
  if p.length = 0 then some (-DREW_ERR_INVALID, p)
  else if pt.inf then do
    let p ← writeAt p 0 [0]
    return (1, p)
  else
    let n := nbytes pt.curve.p
    if p.length < n * 2 + 1 then some (-DREW_ERR_MORE_INFO, p)
    else do
      let p := List.replicate p.length 0
      let x ← pt.x
      let y ← pt.y
      let p ← writeAt p 0 [4]
      let p ← writeAt p (1 + (n - nbytes x)) (bytes x)
      let p ← writeAt p (1 + n + (n - nbytes y)) (bytes y)
      return (0, p)

/-- The code and the point. -/
def load_point (pt : Point) (p : List UInt8) : Option (Int × Point) :=
  let piecelen := p.length / 2
  match p.head? with
  | none => some (-DREW_ERR_INVALID, pt)
  | some b =>
      if b = 0 then some (0, { pt with inf := true })
      else if b ≠ 4 then some (-DREW_ERR_NOT_IMPL, pt)
      else do
        let xs ← readAt p 1 piecelen
        let ys ← readAt p (piecelen + 1) piecelen
        return (0, { pt with inf := false, x := some (setbytes xs), y := some (setbytes ys) })

def ecpt_ncoordbytes (pt : Point) : Coord → Option Int
  | .x => pt.x.map fun x => (nbytes x : Int)
  | .y => pt.y.map fun y => (nbytes y : Int)
  | .sec => some (if pt.inf then 1 else (nbytes pt.curve.p * 2 : Nat) + 1)
  | .secCompressed => some (-DREW_ERR_NOT_IMPL)

/-! ## Encoded points -/

/-- The coordinates are residues. -/
def Reduced (pt : Point) (x y : Int) : Prop :=
  pt.inf = false ∧ pt.x = some x ∧ pt.y = some y ∧ (0 ≤ x ∧ x < pt.curve.p) ∧ 0 ≤ y ∧ y < pt.curve.p

/-- Infinity or a point with residues for coordinates. -/
def Encodable (pt : Point) : Prop := pt.inf = true ∨ ∃ x y, Reduced pt x y

/-- A point is the other: both are infinity, or they have the same coordinates. -/
def SamePoint (a b : Point) : Prop := a.inf = b.inf ∧ (b.inf = false → a.x = b.x ∧ a.y = b.y)

/-- A buffer of the size that `ecpt_ncoordbytes` reports gets an encoding, from which the point comes back. -/
def RoundTrips (pt : Point) : Prop :=
  ∀ (buf : List UInt8) (into : Point), ecpt_ncoordbytes pt .sec = some (buf.length : Int) →
    ∃ code enc pt', store_point pt buf = some (code, enc) ∧ 0 ≤ code ∧ enc.length = buf.length ∧
      load_point into enc = some (0, pt') ∧ SamePoint pt' pt

/-- A string is read within its bounds, and if it is accepted as a point with coordinates it has the length of
two of them and one byte. -/
def LoadsRight (pt : Point) (bs : List UInt8) : Prop :=
  ∃ code pt', load_point pt bs = some (code, pt') ∧
    (code = 0 → bs.head? = some 4 → bs.length = 1 + 2 * nbytes pt.curve.p)

section Encoding

theorem natAbs_lt_pow (a : Int) : a.natAbs < 256 ^ nbytes a := by
  have hsize : a.natAbs < 2 ^ a.natAbs.size := Nat.lt_size_self _
  have hle : a.natAbs.size ≤ 8 * nbytes a := by
    rw [nbytes, nbits]
    omega
  calc a.natAbs < 2 ^ a.natAbs.size := hsize
    _ ≤ 2 ^ (8 * nbytes a) := Nat.pow_le_pow_right (by norm_num) hle
    _ = 256 ^ nbytes a := by rw [pow_mul]; norm_num

theorem nbytes_le {a p : Int} (h0 : 0 ≤ a) (h : a < p) : nbytes a ≤ nbytes p := by
  have hsize : a.natAbs.size ≤ p.natAbs.size := Nat.size_le_size (by omega)
  rw [nbytes, nbytes, nbits, nbits]
  omega

/-- Zeros and the bytes of a residue are as many bytes as the field has. -/
theorem zeros_bytes {a p : Int} (h0 : 0 ≤ a) (h : a < p) :
    List.replicate (nbytes p - nbytes a) 0 ++ bytes a = beBytes (nbytes p) a.natAbs := by
  have hle := nbytes_le h0 h
  have hsplit := beBytes_of_lt (natAbs_lt_pow a) (nbytes p - nbytes a)
  rw [Nat.sub_add_cancel hle] at hsplit
  exact hsplit.symm

theorem setbytes_beBytes {a p : Int} (h0 : 0 ≤ a) (h : a < p) :
    setbytes (beBytes (nbytes p) a.natAbs) = a := by
  have hlt : a.natAbs < 256 ^ nbytes p :=
    (natAbs_lt_pow a).trans_le (Nat.pow_le_pow_right (by norm_num) (nbytes_le h0 h))
  rw [setbytes, beNat_beBytes, Nat.mod_eq_of_lt hlt]
  omega

/-- A write over as many bytes. -/
theorem writeAt_append (a b c : List UInt8) {bs : List UInt8} {off : Int} (hoff : off = a.length)
    (hlen : b.length = bs.length) : writeAt (a ++ (b ++ c)) off bs = some (a ++ (bs ++ c)) := by
  have hroom : 0 ≤ off ∧ off.toNat + bs.length ≤ (a ++ (b ++ c)).length := by
    simp only [List.length_append]
    omega
  have hnat : off.toNat = a.length := by omega
  have hdrop : (a ++ (b ++ c)).drop (a.length + bs.length) = c := by
    rw [← hlen, ← List.length_append, ← List.append_assoc]
    exact List.drop_left' rfl
  rw [writeAt, if_pos hroom, hnat, hdrop, List.take_left' rfl, List.append_assoc]

theorem length_bytes (a : Int) : (bytes a).length = nbytes a := length_beBytes _ _

/-- A coordinate over zeros behind what is there. -/
theorem writeAt_coordinate (done : List UInt8) (rest : Nat) {a p : Int} (h0 : 0 ≤ a) (h : a < p) :
    writeAt (done ++ List.replicate (nbytes p + rest) 0)
        (done.length + (nbytes p - nbytes a) : Int) (bytes a) =
      some (done ++ beBytes (nbytes p) a.natAbs ++ List.replicate rest 0) := by
  have hle := nbytes_le h0 h
  have hzeros : done ++ List.replicate (nbytes p + rest) (0 : UInt8) =
      (done ++ List.replicate (nbytes p - nbytes a) 0) ++
        (List.replicate (nbytes a) 0 ++ List.replicate rest 0) := by
    rw [List.append_assoc, List.replicate_append_replicate, List.replicate_append_replicate]
    congr 2
    omega
  have hoff : (done.length + (nbytes p - nbytes a) : Int) =
      (done ++ List.replicate (nbytes p - nbytes a) (0 : UInt8)).length := by
    rw [List.length_append, List.length_replicate]
    omega
  have hlen : (List.replicate (nbytes a) (0 : UInt8)).length = (bytes a).length := by
    rw [List.length_replicate, length_bytes]
  rw [hzeros, writeAt_append _ _ _ hoff hlen, ← List.append_assoc, List.append_assoc done,
    zeros_bytes h0 h]

/-- What `store_point` leaves in a buffer of the right size. -/
theorem store_point_eq {pt : Point} {x y : Int} (hpt : Reduced pt x y) {buf : List UInt8}
    (hbuf : buf.length = nbytes pt.curve.p * 2 + 1) :
    store_point pt buf = some (0, 4 :: (beBytes (nbytes pt.curve.p) x.natAbs ++
      beBytes (nbytes pt.curve.p) y.natAbs)) := by
  rcases hpt with ⟨hinf, hx, hy, ⟨hx0, hxp⟩, hy0, hyp⟩
  let n := nbytes pt.curve.p
  have hmark : writeAt (List.replicate buf.length 0) 0 [4] =
      some ([4] ++ List.replicate (n + n) 0) := by
    have hsplit : List.replicate buf.length (0 : UInt8) = [] ++ ([0] ++ List.replicate (n + n) 0) := by
      rw [hbuf, show nbytes pt.curve.p * 2 + 1 = n + n + 1 by omega]
      rfl
    rw [hsplit]
    exact writeAt_append [] [0] _ rfl rfl
  have hxs := writeAt_coordinate [4] n hx0 hxp
  have hys := writeAt_coordinate ([4] ++ beBytes n x.natAbs) 0 hy0 hyp
  rw [Nat.add_zero, List.replicate_zero, List.append_nil] at hys
  have hoffx : (([4] : List UInt8).length + (nbytes pt.curve.p - nbytes x) : Int) = 1 + (n - nbytes x) := by
    simp [n]
  have hoffy : ((([4] ++ beBytes n x.natAbs).length : Int) + (nbytes pt.curve.p - nbytes y) : Int) =
      1 + n + (n - nbytes y) := by
    simp [n, length_beBytes]
    ring
  rw [hoffx] at hxs
  rw [hoffy] at hys
  simp only [store_point, hbuf, Nat.add_one_ne_zero, if_false, hinf, Bool.false_eq_true, lt_irrefl, hx, hy,
    Option.bind_eq_bind, Option.bind_some]
  rw [← hbuf, hmark, Option.bind_some, hxs, Option.bind_some, hys, Option.bind_some]
  simp [n]

/-- What `load_point` makes of a point with coordinates. -/
theorem load_point_eq (pt : Point) {xs ys : List UInt8} (hlen : xs.length = ys.length) :
    load_point pt (4 :: (xs ++ ys)) =
      some (0, { pt with inf := false, x := some (setbytes xs), y := some (setbytes ys) }) := by
  have hpiece : (4 :: (xs ++ ys)).length / 2 = xs.length := by
    rw [List.length_cons, List.length_append]
    omega
  have hxs : readAt (4 :: (xs ++ ys)) 1 xs.length = some xs := by
    have hroom : 1 + xs.length ≤ (4 :: (xs ++ ys)).length := by
      rw [List.length_cons, List.length_append]
      omega
    rw [readAt, if_pos hroom]
    exact congrArg some List.take_left
  have hys : readAt (4 :: (xs ++ ys)) (xs.length + 1) xs.length = some ys := by
    have hroom : xs.length + 1 + xs.length ≤ (4 :: (xs ++ ys)).length := by
      rw [List.length_cons, List.length_append]
      omega
    rw [readAt, if_pos hroom, List.drop_succ_cons, List.drop_left, hlen, List.take_length]
  simp only [load_point, List.head?_cons, hpiece, hxs, hys, Option.bind_eq_bind, Option.bind_some]
  rfl

theorem roundTrips_of_encodable {pt : Point} (hpt : Encodable pt) : RoundTrips pt := by
  intro buf into hsize
  rcases hpt with hinf | ⟨x, y, hpt⟩
  · have hbuf : buf.length = 1 := by
      simp only [ecpt_ncoordbytes, hinf, if_true, Option.some.injEq] at hsize
      exact_mod_cast hsize.symm
    rcases List.length_eq_one_iff.mp hbuf with ⟨b, rfl⟩
    refine ⟨1, [0], { into with inf := true }, ?_, by norm_num, rfl, rfl, hinf.symm, ?_⟩
    · simp only [store_point, hinf, if_true, List.length_cons, List.length_nil]
      rfl
    · intro hno
      rw [hinf] at hno
      cases hno
  · have hbuf : buf.length = nbytes pt.curve.p * 2 + 1 := by
      simp only [ecpt_ncoordbytes, hpt.1, Bool.false_eq_true, if_false, Option.some.injEq] at hsize
      exact_mod_cast hsize.symm
    rcases hpt with ⟨hinf, hx, hy, ⟨hx0, hxp⟩, hy0, hyp⟩
    refine ⟨0, _, _, store_point_eq ⟨hinf, hx, hy, ⟨hx0, hxp⟩, hy0, hyp⟩ hbuf, le_rfl, ?_,
      load_point_eq into (by rw [length_beBytes, length_beBytes]), hinf.symm, ?_⟩
    · rw [List.length_cons, List.length_append, length_beBytes, length_beBytes, hbuf]
      omega
    · intro _
      rw [setbytes_beBytes hx0 hxp, setbytes_beBytes hy0 hyp, hx, hy]
      exact ⟨rfl, rfl⟩

/-- A string that does not begin with the mark is not read further. -/
theorem load_point_of_head_ne (pt : Point) {bs : List UInt8} (h : bs.head? ≠ some 4) :
    ∃ code pt', load_point pt bs = some (code, pt') := by
  unfold load_point
  split
  · exact ⟨_, _, rfl⟩
  · next b hb =>
      by_cases hb0 : b = 0
      · exact ⟨_, _, if_pos hb0⟩
      · have hb4 : b ≠ 4 := fun hb4 => h (hb4 ▸ hb)
        exact ⟨_, _, (if_neg hb0).trans (if_pos hb4)⟩

theorem loadsRight_iff (pt : Point) (bs : List UInt8) :
    LoadsRight pt bs ↔ bs.head? ≠ some 4 ∨ bs.length = 1 + 2 * nbytes pt.curve.p := by
  by_cases hhead : bs.head? = some 4
  · rcases List.head?_eq_some_iff.mp hhead with ⟨rest, rfl⟩
    constructor
    · rintro ⟨code, pt', hload, hlen⟩
      refine Or.inr (hlen ?_ hhead)
      simp only [load_point, List.head?_cons] at hload
      rcases Option.bind_eq_some_iff.mp hload with ⟨xs, -, hload⟩
      rcases Option.bind_eq_some_iff.mp hload with ⟨ys, -, hload⟩
      cases hload
      rfl
    · rintro (hno | hlen)
      · exact absurd hhead hno
      · let n := nbytes pt.curve.p
        have hrest : rest.length = n + n := by
          rw [List.length_cons] at hlen
          omega
        have hsplit : rest = rest.take n ++ rest.drop n := (List.take_append_drop n rest).symm
        have hhalf : (rest.take n).length = (rest.drop n).length := by
          rw [List.length_take, List.length_drop]
          omega
        have hload := load_point_eq pt hhalf
        rw [← hsplit] at hload
        exact ⟨_, _, hload, fun _ _ => hlen⟩
  · rcases load_point_of_head_ne pt hhead with ⟨code, pt', hload⟩
    exact iff_of_true ⟨code, pt', hload, fun _ h => absurd h hhead⟩ (Or.inl hhead)

end Encoding

/-- Every point with residues for coordinates comes back from its bytes, and so does infinity. A string is
loaded as it should be exactly if it is not one of an uncompressed point or has the length of one. -/
theorem sec_iff (pt : Point) (bs : List UInt8) :
    (Encodable pt → RoundTrips pt) ∧
      (LoadsRight pt bs ↔ bs.head? ≠ some 4 ∨ bs.length = 1 + 2 * nbytes pt.curve.p) :=
  ⟨roundTrips_of_encodable, loadsRight_iff pt bs⟩

/-- A curve over 23 elements, whose points have three bytes, and infinity on it. -/
def infinity23 : Point := ⟨true, some 0, some 0, ⟨23, 1, 1, 28, 1⟩⟩

/-- Two bytes are read beyond their end, and one byte is a point. -/
theorem load_point_wrong_lengths :
    load_point infinity23 [4, 0] = none ∧ ¬LoadsRight infinity23 [4, 0] ∧
      load_point infinity23 [4] = some (0, { infinity23 with inf := false }) ∧
      ¬LoadsRight infinity23 [4] := by
  refine ⟨rfl, ?_, rfl, ?_⟩
  · intro h
    exact absurd ((loadsRight_iff _ _).mp h) (by decide)
  · intro h
    exact absurd ((loadsRight_iff _ _).mp h) (by decide)

/-- The encoding of infinity. -/
theorem sec_iff_infinity : RoundTrips infinity23 ∧ LoadsRight infinity23 [0] :=
  ⟨(sec_iff infinity23 [0]).1 (Or.inl rfl), (sec_iff infinity23 [0]).2.mpr (Or.inl (by decide))⟩

end Drew.Ecc
