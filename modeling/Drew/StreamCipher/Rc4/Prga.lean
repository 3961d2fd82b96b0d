import Mathlib.Algebra.Group.End
import Mathlib.Logic.Equiv.Fin.Basic
import Drew.StreamCipher.Rc4

/-!
# RC4 as it is described

The state is a permutation of the 256 values with two of them as indices. The key schedule and each
step of the generator swap two entries. The model has the permutation as an array of words, and its
indices are taken as low bytes of words (`Refines`).
-/

namespace Drew.StreamCipher.Rc4

open Drew.Memory

/-! ## The description -/

/-- A state of the generator. -/
structure Prga where
  S : Equiv.Perm (Fin 256)
  i : Fin 256
  j : Fin 256

/-- The state and the byte after one step. -/
def Prga.step (g : Prga) : Prga × UInt8 :=
  let i := g.i + 1
  let j := g.j + g.S i
  let S := g.S * Equiv.swap i j
  (⟨S, i, j⟩, UInt8.ofNat (S (S i + S j)))

/-- The states after some steps. -/
def Prga.after (g : Prga) (n : Nat) : Prga := (fun g => g.step.1)^[n] g

/-- The byte that is made after some others. -/
def Prga.byte (g : Prga) (n : Nat) : UInt8 := (g.after n).step.2

def scheduleStep (key : List UInt8) (r : Equiv.Perm (Fin 256) × Fin 256) (i : Fin 256) :
    Equiv.Perm (Fin 256) × Fin 256 :=
  let j := r.2 + (r.1 i + Fin.ofNat 256 (key.getD (i.val % key.length) 0).toNat)
  (r.1 * Equiv.swap i j, j)

/-- The generator of a key. -/
def schedule (key : List UInt8) : Prga :=
  ⟨((List.finRange 256).foldl (scheduleStep key) (1, 0)).1, 0, 0⟩

theorem Prga.after_succ (g : Prga) (n : Nat) : g.after (n + 1) = (g.step.1).after n := rfl

theorem Prga.after_step (g : Prga) (n : Nat) : (g.after n).step.1 = g.after (n + 1) := by
  rw [after, after, Function.iterate_succ_apply']

theorem Prga.after_after (g : Prga) (m n : Nat) : (g.after m).after n = g.after (m + n) := by
  rw [after, after, after, Nat.add_comm, Function.iterate_add_apply]

theorem Prga.byte_after (g : Prga) (m n : Nat) : (g.after m).byte n = g.byte (m + n) := by
  rw [byte, byte, after_after]

theorem Prga.after_i (g : Prga) (n : Nat) : ((g.after n).i).val = (g.i.val + n) % 256 := by
  induction n with
  | zero => exact (Nat.mod_eq_of_lt g.i.isLt).symm
  | succ n ih =>
    rw [← after_step]
    change ((g.after n).i + 1).val = _
    rw [Fin.val_add, ih]
    change ((g.i.val + n) % 256 + 1) % 256 = _
    omega

/-! ## The array -/

/-- The array has the values of a permutation. -/
def HasPerm (s : Buf UInt32 256) (S : Equiv.Perm (Fin 256)) : Prop := ∀ x : Fin 256, (s.get x).toNat = (S x).val

/-- The members are a state of the generator. -/
structure Refines (ks : Rc4Keystream) (g : Prga) : Prop where
  s : HasPerm ks.s g.S
  i : place ks.i = g.i
  j : place ks.j = g.j

theorem place_add (a b : UInt32) : place (a + b) = place a + place b := by
  apply Fin.ext
  rw [Fin.val_add]
  change (a + b).toNat % 256 = (a.toNat % 256 + b.toNat % 256) % 256
  rw [UInt32.toNat_add]
  omega

variable {s : Buf UInt32 256} {S : Equiv.Perm (Fin 256)}

theorem HasPerm.place (h : HasPerm s S) (x : Fin 256) : Rc4.place (s.get x) = S x := by
  apply Fin.ext
  change (s.get x).toNat % 256 = _
  rw [h x, Nat.mod_eq_of_lt (S x).isLt]

theorem HasPerm.swap (h : HasPerm s S) (a b : Fin 256) :
    HasPerm (Rc4.swap s a b) (S * Equiv.swap a b) := by
  intro x
  rw [Equiv.Perm.mul_apply]
  by_cases hb : x = b
  · subst hb
    rw [Equiv.swap_apply_right, ← h a]
    congr 1
    exact Vector.getElem_set_self _
  · have hset : (Rc4.swap s a b).get x = (s.set a (s.get b)).get x :=
      Vector.getElem_set_ne _ _ fun hbx => hb (Fin.ext hbx.symm)
    rw [hset]
    by_cases ha : x = a
    · subst ha
      rw [Equiv.swap_apply_left, ← h b]
      congr 1
      exact Vector.getElem_set_self _
    · rw [Equiv.swap_apply_of_ne_of_ne ha hb, ← h x]
      congr 1
      exact Vector.getElem_set_ne _ _ fun hax => ha (Fin.ext hax.symm)

/-! ## The generator -/

variable {ks : Rc4Keystream} {g : Prga}

/-- The entry at the sum of two entries. -/
theorem HasPerm.value (h : HasPerm s S) (x y : Fin 256) :
    (s.get (Rc4.place (s.get x + s.get y))).toUInt8 = UInt8.ofNat (S (S x + S y)) := by
  apply UInt8.toNat_inj.mp
  rw [UInt32.toNat_toUInt8, h, place_add, h.place, h.place, UInt8.toNat_ofNat']

/-- The step at the entry that comes next. -/
theorem stepAt_spec (hs : HasPerm ks.s g.S) (hj : place ks.j = g.j) :
    HasPerm (stepAt ks (g.i + 1)).1.s g.step.1.S ∧ place (stepAt ks (g.i + 1)).1.j = g.step.1.j ∧
      (stepAt ks (g.i + 1)).2 = g.step.2 ∧ (stepAt ks (g.i + 1)).1.i = ks.i := by
  have hplace : place (ks.j + ks.s.get (g.i + 1)) = g.j + g.S (g.i + 1) := by
    rw [place_add, hj, hs.place]
  have hperm := hs.swap (g.i + 1) (place (ks.j + ks.s.get (g.i + 1)))
  have hvalue := hperm.value (g.i + 1) (place (ks.j + ks.s.get (g.i + 1)))
  rw [hplace] at hperm
  refine ⟨?_, hplace, hvalue.trans ?_, rfl⟩
  · change HasPerm (Rc4.swap ks.s (g.i + 1) (place (ks.j + ks.s.get (g.i + 1)))) _
    rw [hplace]
    exact hperm
  · rw [hplace]
    rfl

theorem getValue_spec (h : Refines ks g) :
    Refines (getValue ks).1 g.step.1 ∧ (getValue ks).2 = g.step.2 := by
  have hi : place (ks.i + 1) = g.i + 1 := by
    rw [place_add, h.i]
    rfl
  obtain ⟨hs, hj, hout, hkeep⟩ := @stepAt_spec { ks with i := ks.i + 1 } g h.s h.j
  unfold getValue
  rw [hi]
  refine ⟨⟨hs, ?_, hj⟩, hout⟩
  rw [hkeep]
  exact hi

theorem iterate_getValue_spec (h : Refines ks g) (n : Nat) :
    Refines ((fun ks => (getValue ks).1)^[n] ks) (g.after n) := by
  induction n generalizing ks g with
  | zero => exact h
  | succ n ih => exact ih (getValue_spec h).1

/-- Values for the rest of the buffer. -/
theorem fillFrom_getValue (k i : Nat) (h : Refines ks g) (hik : i + k ≤ 256) (buf : Buf UInt8 256) :
    Refines (fillFrom (fun ks _ => getValue ks) k i ks buf).1 (g.after k) ∧
      ∀ t < k, (fillFrom (fun ks _ => getValue ks) k i ks buf).2[i + t]? = some (g.byte t) := by
  induction k generalizing i ks g buf with
  | zero => exact ⟨h, fun t ht => absurd ht (Nat.not_lt_zero t)⟩
  | succ k ih =>
    obtain ⟨hnext, hout⟩ := getValue_spec h
    obtain ⟨hks, hbuf⟩ := ih (i + 1) hnext (by omega) (buf.setIfInBounds i (getValue ks).2)
    refine ⟨hks, fun t ht => ?_⟩
    change (fillFrom _ k (i + 1) (getValue ks).1 (buf.setIfInBounds i (getValue ks).2)).2[i + t]? = _
    rcases Nat.eq_zero_or_pos t with rfl | hpos
    · rw [show i + 0 = i from rfl, fillFrom_keeps k _ _ _ (Nat.lt_succ_self i),
        Vector.getElem?_setIfInBounds_self_of_lt (by omega), hout]
      rfl
    · have hbyte := hbuf (t - 1) (by omega)
      rw [show i + 1 + (t - 1) = i + t by omega] at hbyte
      rw [hbyte, Prga.byte, ← Prga.after_succ, Nat.sub_add_cancel hpos]
      rfl

/-! ## The key schedule -/

theorem keyStep_spec {buf : Buf UInt8 256} {key : List UInt8} (hpos : 0 < key.length)
    (hkey : buf.Holds 0 key) {r : Buf UInt32 256 × UInt32} {q : Equiv.Perm (Fin 256) × Fin 256}
    (hr : HasPerm r.1 q.1 ∧ place r.2 = q.2) (i : Fin 256) :
    HasPerm (keyStep buf key.length r i).1 (scheduleStep key q i).1 ∧
      place (keyStep buf key.length r i).2 = (scheduleStep key q i).2 := by
  have hbyte : (buf[i.val % key.length]?).getD 0 = key.getD (i.val % key.length) 0 := by
    have hget := hkey.2 (i.val % key.length) (Nat.mod_lt _ hpos)
    rw [Nat.zero_add] at hget
    rw [hget, List.getD_eq_getElem?_getD]
  have hplace : place ((keyStep buf key.length r i).2) = (scheduleStep key q i).2 := by
    rw [keyStep, scheduleStep]
    dsimp only
    rw [hbyte, place_add, place_add, hr.1.place, hr.2]
    rfl
  refine ⟨?_, hplace⟩
  have hperm := hr.1.swap i (place (keyStep buf key.length r i).2)
  rw [hplace] at hperm
  change HasPerm (Rc4.swap r.1 i (place (keyStep buf key.length r i).2)) _
  rw [hplace]
  exact hperm

theorem ksSetKey_spec {buf : Buf UInt8 256} {key : List UInt8} (hpos : 0 < key.length)
    (hkey : buf.Holds 0 key) : Refines (ksSetKey buf key.length) (schedule key) := by
  have hfold : ∀ (is : List (Fin 256)) (r : Buf UInt32 256 × UInt32)
      (q : Equiv.Perm (Fin 256) × Fin 256), HasPerm r.1 q.1 ∧ place r.2 = q.2 →
      HasPerm (is.foldl (keyStep buf key.length) r).1 (is.foldl (scheduleStep key) q).1 := by
    intro is
    induction is with
    | nil => exact fun _ _ h => h.1
    | cons i is ih => exact fun r q h => ih _ _ (keyStep_spec hpos hkey h i)
  refine ⟨hfold _ _ _ ⟨?_, rfl⟩, rfl, rfl⟩
  intro x
  change (Vector.ofFn fun i : Fin 256 => UInt32.ofNat i)[x.val].toNat = x.val
  rw [Vector.getElem_ofFn, UInt32.toNat_ofNat']
  exact Nat.mod_eq_of_lt (x.isLt.trans (by decide))

end Drew.StreamCipher.Rc4
