import Drew.Memory.Endian
import Drew.Memory.Buffer
import Drew.Stream.Run
import Drew.Stream.Units

/-!
# The generators Isaac64 and IsaacPlus

A generator fills a buffer of 256 words and gives out its bytes. The buffer is filled again as soon as the last
byte of it was given out, so there is always a byte left.

The classes are alike but for the words and what is done with them.
-/

namespace Drew.Prng.Isaac

open Drew.Memory Drew.Stream

/-! ## Data -/

/-- The members of a generator. -/
structure Generator (W : Type) where
  aa : W
  bb : W
  cc : W
  s : Buf W 256
  res : Buf W 256
  nbytes : Nat

/-- What a class has of its own. `mixes` are what the calls of `Round` in a round of the loops are given. -/
structure Variant (W : Type) where
  word : WordType W
  pos : 0 < word.size
  le : word.size ≤ 8
  round : W → W → W → Fin 256 → Fin 256 → Buf W 256 → W × W × Buf W 256
  mixes : Fin 4 → W → W
  golden : W
  mix : Buf W 8 → Buf W 8

/-- What the system gives to `Stir`: what the structure has before the bytes of the device, and these. -/
structure Randdata (W : Type) where
  head : List UInt8
  buf : Buf W 256

/-! ## What the classes do -/

/-- The place of an index that is cast to a byte. -/
def place (n : Nat) : Fin 256 := Fin.ofNat 256 n

def put {W : Type} {n : Nat} (t : Buf W n) (i : Fin n) (x : W) : Buf W n := t.set i x i.isLt

namespace Isaac64

/-- `Round`: `a`, `b` and `m_s`, of which `s` and `t` are places. -/
def round (mix _ b : UInt64) (s t : Fin 256) (m : Buf UInt64 256) : UInt64 × UInt64 × Buf UInt64 256 :=
  let x := m.get s
  let a := mix + m.get t
  let m := put m s (a + b + m.get (place (x >>> 3).toNat))
  (a, x + m.get (place (m.get s >>> 11).toNat), m)

def mixes : Fin 4 → UInt64 → UInt64
  | 0, a => ~~~(a ^^^ (a <<< 21))
  | 1, a => a ^^^ (a >>> 5)
  | 2, a => a ^^^ (a <<< 12)
  | 3, a => a ^^^ (a >>> 33)

/-- A line of `Mix`. -/
def line (i : Fin 8) (shift : UInt64 → UInt64) (t : Buf UInt64 8) : Buf UInt64 8 :=
  let t := put t i (t.get i - t.get (i + 4))
  let t := put t (i + 5) (t.get (i + 5) ^^^ shift (t.get (i + 7)))
  put t (i + 7) (t.get (i + 7) + t.get i)

def mix (t : Buf UInt64 8) : Buf UInt64 8 :=
  let t := line 0 (· >>> 9) t
  let t := line 1 (· <<< 9) t
  let t := line 2 (· >>> 23) t
  let t := line 3 (· <<< 15) t
  let t := line 4 (· >>> 14) t
  let t := line 5 (· <<< 20) t
  let t := line 6 (· >>> 17) t
  line 7 (· <<< 14) t

end Isaac64

namespace IsaacPlus

def rotateLeft (a n : UInt32) : UInt32 := (a <<< n) ||| (a >>> (32 - n))

def rotateRight (a n : UInt32) : UInt32 := (a >>> n) ||| (a <<< (32 - n))

def round (mix _ b : UInt32) (s t : Fin 256) (m : Buf UInt32 256) : UInt32 × UInt32 × Buf UInt32 256 :=
  let x := m.get s
  let a := mix + m.get t
  let m := put m s (a ^^^ (b + m.get (place (x >>> 2).toNat)))
  (a, x + (a ^^^ m.get (place (m.get s >>> 10).toNat)), m)

def mixes : Fin 4 → UInt32 → UInt32
  | 0, a => rotateLeft a 13
  | 1, a => rotateRight a 6
  | 2, a => rotateLeft a 2
  | 3, a => rotateRight a 16

def line (i : Fin 8) (shift : UInt32 → UInt32) (t : Buf UInt32 8) : Buf UInt32 8 :=
  let t := put t i (t.get i ^^^ shift (t.get (i + 1)))
  let t := put t (i + 4) (t.get (i + 4) + t.get i)
  put t (i + 1) (t.get (i + 1) + t.get (i + 2))

def mix (t : Buf UInt32 8) : Buf UInt32 8 :=
  let t := line 0 (· <<< 11) t
  let t := line 1 (· >>> 2) t
  let t := line 2 (· <<< 8) t
  let t := line 3 (· >>> 16) t
  let t := line 4 (· <<< 10) t
  let t := line 5 (· >>> 4) t
  let t := line 6 (· <<< 8) t
  line 7 (· >>> 9) t

end IsaacPlus

def isaac64 : Variant UInt64 where
  word := word64
  pos := by decide
  le := by decide
  round := Isaac64.round
  mixes := Isaac64.mixes
  golden := 0x9e3779b97f4a7c13
  mix := Isaac64.mix

def isaacplus : Variant UInt32 where
  word := word32
  pos := by decide
  le := by decide
  round := IsaacPlus.round
  mixes := IsaacPlus.mixes
  golden := 0x9e3779b9
  mix := IsaacPlus.mix

/-! ## Functions -/

namespace Variant

variable {W : Type} (v : Variant W) (e : Endian)

/-- `sizeof(m_res)`. -/
def size : Nat := v.word.size * 256

variable {v} in
theorem size_pos : 0 < v.size := Nat.mul_pos v.pos (by decide)

variable {v} in
theorem size_lt : v.size < 2 ^ 64 := by
  have hle := Nat.mul_le_mul_right 256 v.le
  exact lt_of_le_of_lt hle (by decide)

/-- The structure as bytes. -/
def randomBytes (rnd : Randdata W) : List UInt8 := rnd.head ++ copyOut v.word e rnd.buf

variable {v e} in
theorem length_randomBytes (rnd : Randdata W) : (v.randomBytes e rnd).length = rnd.head.length + v.size := by
  rw [randomBytes, List.length_append, length_copyOut]
  rfl

variable [Add W] [OfNat W 1]

/-- A call of `Round` in `FillBuffer`, where the first of the places of the two pointers are `s` and `t`. The array
that is filled goes along with the first of them. -/
def fillStep (s t : Nat) (r : W × W × Buf W 256 × Buf W 256) (i : Nat) : W × W × Buf W 256 × Buf W 256 :=
  let q := v.round (v.mixes (Fin.ofNat 4 i) r.1) r.1 r.2.1 (place (s + i)) (place (t + i)) r.2.2.1
  (q.1, q.2.1, q.2.2, put r.2.2.2 (place (s + i)) q.2.1)

/-- `FillBuffer` of an array, which is given with what it had. -/
def fillBuffer (r : Buf W 256) (st : Generator W) : Generator W × Buf W 256 :=
  let cc := st.cc + 1
  let q := (List.range 128).foldl (v.fillStep 0 128) (st.aa, st.bb + cc, st.s, r)
  let q := (List.range 128).foldl (v.fillStep 128 0) q
  ({ st with aa := q.1, bb := q.2.1, cc := cc, s := q.2.2.1 }, q.2.2.2)

/-- The buffer is filled. -/
def refill (st : Generator W) : Generator W :=
  let q := v.fillBuffer st.res st
  { q.1 with res := q.2, nbytes := v.size }

/-- A round of the loops of `Stir`, which reads an array that depends on `m_s`. -/
def stirStep (k : Buf W 256 → Buf W 256) (r : Buf W 8 × Buf W 256) (i : Nat) : Buf W 8 × Buf W 256 :=
  let t := v.mix (Vector.ofFn fun j => r.1.get j + (k r.2).get (place (8 * i + j)))
  (t, (List.finRange 8).foldl (fun s (j : Fin 8) => put s (place (8 * i + j)) (t.get j)) r.2)

/-- `Stir` with an array. -/
def stir (k : Buf W 256) (st : Generator W) : Generator W :=
  let t := v.mix^[4] (Vector.replicate 8 v.golden)
  let r := (List.range 32).foldl (v.stirStep fun _ => k) (t, st.s)
  let r := (List.range 32).foldl (v.stirStep fun s => s) (r.1, r.2)
  v.refill { st with s := r.2 }

/-- `t[i] ^= data[i % nbytes]` for the bytes of an array of words. -/
def xorData (tmp : Buf W 256) (data : List UInt8) : Buf W 256 :=
  copyIn v.word e 256 ((copyOut v.word e tmp).mapIdx fun i b => b ^^^ data.getD (i % data.length) 0)

/-- `AddRandomData`, where `tmp` is given with what it had. The loop does not end if it takes more rounds than
there are. -/
def addRandomData : Nat → Buf W 256 → List UInt8 → Generator W → Option (Generator W)
  | rounds, tmp, data, st =>
      if data.length = 0 then some st else
        match rounds with
        | 0 => none
        | rounds + 1 =>
            let nbytes := min data.length v.size
            let (st, tmp) := v.fillBuffer tmp st
            let tmp := v.xorData e tmp (data.take nbytes)
            addRandomData rounds tmp (data.drop nbytes) (v.stir tmp st)

/-- `GetBytes`: the bytes that are written to the array. -/
def getBytes : Nat → Nat → Generator W → Option (Generator W × List UInt8)
  | rounds, len, st =>
      if len = 0 then some (st, []) else
        match rounds with
        | 0 => none
        | rounds + 1 => do
            let nbytes := min st.nbytes len
            let res : Buf UInt8 v.size := Buf.ofList (copyOut v.word e st.res) (length_copyOut st.res)
            let out ← res.read (subSize v.size st.nbytes) nbytes
            let st := { st with nbytes := st.nbytes - nbytes }
            let st := if st.nbytes = 0 then v.refill st else st
            let (st, outs) ← getBytes rounds (len - nbytes) st
            return (st, out ++ outs)

/-- Requests one after the other. -/
def requests (rounds : Nat) (lens : List Nat) (st : Generator W) : Option (Generator W × List (List UInt8)) :=
  run (fun st len => v.getBytes e rounds len st) st lens

/-! ## The bytes of the buffers -/

/-- The buffer after it was filled `q` times. -/
def buffer (st : Generator W) (q : Nat) : List UInt8 := copyOut v.word e (v.refill^[q] st).res

/-- The byte at a place of the buffers one after the other. -/
def byteAt (st : Generator W) (p : Nat) : UInt8 := (v.buffer e st (p / v.size)).getD (p % v.size) 0

def bytesFrom (st : Generator W) (p n : Nat) : List UInt8 := (List.range n).map fun i => v.byteAt e st (p + i)

/-- The state in which the next byte to be given out is that at a place. -/
def stateAt (st : Generator W) (p : Nat) : Generator W :=
  { v.refill^[p / v.size] st with nbytes := v.size - p % v.size }

/-- There is a byte left. -/
def Left (st : Generator W) : Prop := 1 ≤ st.nbytes ∧ st.nbytes ≤ v.size

/-- Requests one after the other end, and so does one request for all of it. They give out the next bytes of the
buffers and lead to the same state. -/
def Delivers (st : Generator W) (lens : List Nat) : Prop :=
  ∃ outs : List (List UInt8), ∃ st' : Generator W,
    (∀ rounds, lens.sum ≤ rounds → v.requests e rounds lens st = some (st', outs) ∧
      v.getBytes e rounds lens.sum st = some (st', outs.flatten)) ∧
    outs.map List.length = lens ∧
    outs.flatten = v.bytesFrom e st (v.size - st.nbytes) lens.sum ∧
    st' = v.stateAt st (v.size - st.nbytes + lens.sum) ∧ v.Left st ∧ v.Left st'

variable {v e}

theorem refill_nbytes (st : Generator W) (n : Nat) : v.refill { st with nbytes := n } = v.refill st := by
  simp only [refill, fillBuffer]

theorem refill_stateAt (st : Generator W) (p : Nat) :
    v.refill (v.stateAt st p) = v.refill (v.refill^[p / v.size] st) := refill_nbytes _ _

theorem refill_left (st : Generator W) : { v.refill st with nbytes := v.size } = v.refill st := by
  simp only [refill]

theorem bytesFrom_add (st : Generator W) (p m n : Nat) :
    v.bytesFrom e st p (m + n) = v.bytesFrom e st p m ++ v.bytesFrom e st (p + m) n := by
  simp only [bytesFrom, List.range_add, List.map_append, List.map_map, Nat.add_assoc]
  rfl

theorem length_bytesFrom (st : Generator W) (p n : Nat) : (v.bytesFrom e st p n).length = n := by
  rw [bytesFrom, List.length_map, List.length_range]

theorem length_buffer (st : Generator W) (q : Nat) : (v.buffer e st q).length = v.size := length_copyOut _

/-- Bytes of one buffer. -/
theorem bytesFrom_eq (st : Generator W) {p n : Nat} (h : p % v.size + n ≤ v.size) :
    v.bytesFrom e st p n = ((v.buffer e st (p / v.size)).drop (p % v.size)).take n := by
  apply List.ext_getElem
  · rw [length_bytesFrom, List.length_take, List.length_drop, length_buffer]
    omega
  · intro i hi hi'
    rw [length_bytesFrom] at hi
    have hplace : p % v.size + i < v.size := by omega
    have hp : p + i = v.size * (p / v.size) + (p % v.size + i) := by
      rw [← Nat.add_assoc, Nat.div_add_mod]
    have hdiv : (p + i) / v.size = p / v.size := by
      rw [hp, Nat.mul_add_div size_pos, Nat.div_eq_of_lt hplace, Nat.add_zero]
    have hmod : (p + i) % v.size = p % v.size + i := by
      rw [hp, Nat.mul_add_mod, Nat.mod_eq_of_lt hplace]
    rw [List.getElem_take, List.getElem_drop]
    simp only [bytesFrom, List.getElem_map, List.getElem_range, byteAt, hdiv, hmod]
    exact (List.getElem_eq_getD 0).symm

/-! ## A request -/

theorem left_stateAt (st : Generator W) (p : Nat) : v.Left (v.stateAt st p) := by
  have hmod := Nat.mod_lt p (size_pos (v := v))
  exact ⟨Nat.sub_pos_of_lt hmod, Nat.sub_le _ _⟩

/-- A state with bytes left is at a place of its first buffer. -/
theorem stateAt_self (h : v.Left st) : v.stateAt st (v.size - st.nbytes) = st := by
  have hlt : v.size - st.nbytes < v.size := Nat.sub_lt size_pos h.1
  rw [stateAt, Nat.div_eq_of_lt hlt, Nat.mod_eq_of_lt hlt, Nat.sub_sub_self h.2]
  rfl

/-- The buffer is filled if the bytes that were given out are the last ones of it. -/
theorem stateAt_add (st : Generator W) {p n : Nat} (h : p % v.size + n ≤ v.size) :
    v.stateAt st (p + n) =
      if v.size - p % v.size - n = 0 then v.refill { v.stateAt st p with nbytes := v.size - p % v.size - n }
      else { v.stateAt st p with nbytes := v.size - p % v.size - n } := by
  have hp : p + n = v.size * (p / v.size) + (p % v.size + n) := by
    rw [← Nat.add_assoc, Nat.div_add_mod]
  split
  · rename_i h0
    have hfull : p % v.size + n = v.size := by omega
    have hdiv : (p + n) / v.size = p / v.size + 1 := by
      rw [hp, hfull, ← Nat.mul_succ, Nat.mul_div_cancel_left _ size_pos]
    have hmod : (p + n) % v.size = 0 := by
      rw [hp, hfull, ← Nat.mul_succ, Nat.mul_mod_right]
    rw [refill_nbytes, refill_stateAt, stateAt, hdiv, hmod, Nat.sub_zero, Function.iterate_succ_apply',
      refill_left]
  · rename_i h0
    have hlt : p % v.size + n < v.size := by omega
    have hdiv : (p + n) / v.size = p / v.size := by
      rw [hp, Nat.mul_add_div size_pos, Nat.div_eq_of_lt hlt, Nat.add_zero]
    have hmod : (p + n) % v.size = p % v.size + n := by
      rw [hp, Nat.mul_add_mod, Nat.mod_eq_of_lt hlt]
    rw [stateAt, hdiv, hmod, Nat.sub_add_eq]
    rfl

/-- Each round of the loop gives out a byte at least. -/
theorem getBytes_stateAt (st : Generator W) {rounds len : Nat} (hrounds : len ≤ rounds) (p : Nat) :
    v.getBytes e rounds len (v.stateAt st p) = some (v.stateAt st (p + len), v.bytesFrom e st p len) := by
  induction rounds generalizing len p with
  | zero =>
    obtain rfl : len = 0 := Nat.le_zero.mp hrounds
    rfl
  | succ rounds ih =>
    by_cases h0 : len = 0
    · subst h0
      rfl
    · have hmod := Nat.mod_lt p (size_pos (v := v))
      obtain ⟨n, hn⟩ : ∃ n, n = min (v.size - p % v.size) len := ⟨_, rfl⟩
      have hfit : p % v.size + n ≤ v.size := by omega
      have hoff : subSize v.size (v.size - p % v.size) = p % v.size := by
        rw [subSize_of_le (Nat.sub_le _ _) size_lt, Nat.sub_sub_self hmod.le]
      have hnext := @ih (len - n) (by omega) (p + n)
      rw [Nat.add_assoc, Nat.add_sub_cancel' (by omega)] at hnext
      have hread : (Buf.ofList (n := v.size) (copyOut v.word e (v.stateAt st p).res) (length_copyOut _)).read
          (p % v.size) n = some (v.bytesFrom e st p n) := by
        rw [Buf.read, if_pos hfit, bytesFrom_eq st hfit]
        rfl
      have hsplit := bytesFrom_add (v := v) (e := e) st p n (len - n)
      rw [Nat.add_sub_cancel' (by omega)] at hsplit
      rw [stateAt_add st hfit] at hnext
      unfold getBytes
      simp only [if_neg h0, show (v.stateAt st p).nbytes = v.size - p % v.size from rfl, hoff, ← hn, hread,
        Option.bind_eq_bind, Option.bind_some, hnext, hsplit, pure]

theorem left_refill (st : Generator W) : v.Left (v.refill st) := ⟨size_pos, le_rfl⟩

theorem left_of_getBytes {rounds len : Nat} {st st' : Generator W} {out : List UInt8} (hst : v.Left st)
    (h : v.getBytes e rounds len st = some (st', out)) : v.Left st' := by
  induction rounds generalizing len st out with
  | zero =>
    unfold getBytes at h
    split at h
    · cases h
      exact hst
    · cases h
  | succ rounds ih =>
    unfold getBytes at h
    split at h
    · cases h
      exact hst
    · obtain ⟨out₁, -, h⟩ := Option.bind_eq_some_iff.mp h
      obtain ⟨⟨st₂, outs⟩, hrest, hret⟩ := Option.bind_eq_some_iff.mp h
      cases hret
      refine ih ?_ hrest
      split
      · exact left_refill _
      · rename_i h0
        exact ⟨Nat.one_le_iff_ne_zero.mpr h0, (Nat.sub_le _ _).trans hst.2⟩

/-- Requests that begin at a place. -/
theorem requests_stateAt (st : Generator W) {rounds : Nat} (lens : List Nat) (hrounds : lens.sum ≤ rounds) (p : Nat) :
    ∃ outs, v.requests e rounds lens (v.stateAt st p) = some (v.stateAt st (p + lens.sum), outs) ∧
      outs.map List.length = lens ∧ outs.flatten = v.bytesFrom e st p lens.sum := by
  induction lens generalizing p with
  | nil => exact ⟨[], rfl, rfl, rfl⟩
  | cons len lens ih =>
    rw [List.sum_cons] at hrounds ⊢
    obtain ⟨outs, hrun, hlens, hflat⟩ := ih (by omega) (p + len)
    refine ⟨v.bytesFrom e st p len :: outs, ?_, ?_, ?_⟩
    · rw [requests, run_cons_some lens (getBytes_stateAt st (by omega) p), ← Nat.add_assoc]
      rw [requests] at hrun
      rw [hrun]
      rfl
    · rw [List.map_cons, length_bytesFrom, hlens]
    · rw [List.flatten_cons, hflat, bytesFrom_add]

/-- Requests to a generator with bytes left. -/
theorem delivers_of_left {st : Generator W} (h : v.Left st) (lens : List Nat) : v.Delivers e st lens := by
  obtain ⟨p, hp⟩ : ∃ p, p = v.size - st.nbytes := ⟨_, rfl⟩
  have hst : v.stateAt st p = st := hp ▸ stateAt_self h
  obtain ⟨outs, -, hlens, hflat⟩ := requests_stateAt (v := v) (e := e) st lens le_rfl p
  refine ⟨outs, v.stateAt st (p + lens.sum), ?_, hlens, hp ▸ hflat, hp ▸ rfl, h, left_stateAt st _⟩
  intro rounds hrounds
  obtain ⟨outs', hrun, hlens', hflat'⟩ := requests_stateAt (v := v) (e := e) st lens hrounds p
  have hone := getBytes_stateAt (v := v) (e := e) st hrounds p
  have houts : outs' = outs := List.eq_iff_flatten_eq.mpr ⟨hflat'.trans hflat.symm, hlens'.trans hlens.symm⟩
  rw [hst] at hrun hone
  rw [hflat]
  exact ⟨houts ▸ hrun, hone⟩

/-! ## Seeding -/

theorem left_stir (k : Buf W 256) (st : Generator W) : v.Left (v.stir k st) := left_refill _

/-- Each round of the loop takes a byte of the data at least. -/
theorem exists_addRandomData {rounds : Nat} {data : List UInt8} (hrounds : data.length ≤ rounds)
    (tmp : Buf W 256) (st : Generator W) : ∃ st', v.addRandomData e rounds tmp data st = some st' := by
  induction rounds generalizing data tmp st with
  | zero =>
    refine ⟨st, ?_⟩
    rw [addRandomData, if_pos (Nat.le_zero.mp hrounds)]
  | succ rounds ih =>
    by_cases h0 : data.length = 0
    · refine ⟨st, ?_⟩
      rw [addRandomData, if_pos h0]
    · have hpos := size_pos (v := v)
      rw [addRandomData, if_neg h0]
      refine ih ?_ _ _
      rw [List.length_drop]
      omega

/-- There is a byte left once there was data. -/
theorem left_of_addRandomData {rounds : Nat} {tmp : Buf W 256} {data : List UInt8} {st st' : Generator W}
    (h : v.addRandomData e rounds tmp data st = some st') : (data.length = 0 ∧ st' = st) ∨ v.Left st' := by
  induction rounds generalizing tmp data st with
  | zero =>
    unfold addRandomData at h
    split at h
    · rename_i h0
      cases h
      exact Or.inl ⟨h0, rfl⟩
    · cases h
  | succ rounds ih =>
    unfold addRandomData at h
    split at h
    · rename_i h0
      cases h
      exact Or.inl ⟨h0, rfl⟩
    · rcases ih h with ⟨-, rfl⟩ | hleft
      · exact Or.inr (left_stir _ _)
      · exact Or.inr hleft

variable [OfNat W 0]

variable (v e) in
/-- The constructor. It leaves the other members as they are, and they may be anything. -/
def construct (rounds : Nat) (tmp : Buf W 256) (rnd : Randdata W) (st : Generator W) : Option (Generator W) :=
  v.addRandomData e rounds tmp (v.randomBytes e rnd) { st with aa := 0, bb := 0, cc := 0 }

variable (v e) in
/-- The states that a generator comes to by seeding and generating. -/
inductive Reach : Generator W → Prop
  | construct {rounds : Nat} {tmp : Buf W 256} {rnd : Randdata W} {st st' : Generator W} :
      v.construct e rounds tmp rnd st = some st' → Reach st'
  | seed {rounds : Nat} {tmp : Buf W 256} {data : List UInt8} {st st' : Generator W} :
      Reach st → v.addRandomData e rounds tmp data st = some st' → Reach st'
  | bytes {rounds len : Nat} {st st' : Generator W} {out : List UInt8} :
      Reach st → v.getBytes e rounds len st = some (st', out) → Reach st'

theorem exists_construct (tmp : Buf W 256) (rnd : Randdata W) (st : Generator W) :
    ∃ rounds st', v.construct e rounds tmp rnd st = some st' :=
  ⟨(v.randomBytes e rnd).length, exists_addRandomData le_rfl tmp _⟩

/-- There is a byte left in every state. -/
theorem Reach.left {st : Generator W} (h : v.Reach e st) : v.Left st := by
  induction h with
  | @construct rounds tmp rnd st st' hrun =>
    rcases left_of_addRandomData hrun with ⟨h0, -⟩ | hleft
    · have hpos := size_pos (v := v)
      rw [length_randomBytes] at h0
      omega
    · exact hleft
  | seed _ hrun ih =>
    rcases left_of_addRandomData hrun with ⟨-, rfl⟩ | hleft
    · exact ih
    · exact hleft
  | bytes _ hrun ih => exact left_of_getBytes ih hrun

end Variant

/-- The output does not depend on how it is cut into requests. -/
theorem requests_continue (e : Endian) :
    (∀ st, isaac64.Reach e st → ∀ lens, isaac64.Delivers e st lens) ∧
      ∀ st, isaacplus.Reach e st → ∀ lens, isaacplus.Delivers e st lens :=
  ⟨fun _ h lens => Variant.delivers_of_left h.left lens, fun _ h lens => Variant.delivers_of_left h.left lens⟩

theorem requests_continue_cut : ∃ st, isaac64.Reach .little st ∧ isaac64.Delivers .little st [0, 2047, 2, 4096] := by
  obtain ⟨rounds, st, hst⟩ := Variant.exists_construct (v := isaac64) (e := .little) (Vector.replicate 256 0)
    ⟨[], Vector.replicate 256 0⟩ ⟨0, 0, 0, Vector.replicate 256 0, Vector.replicate 256 0, 0⟩
  have hreach := Variant.Reach.construct hst
  exact ⟨st, hreach, (requests_continue .little).1 st hreach _⟩

end Drew.Prng.Isaac
