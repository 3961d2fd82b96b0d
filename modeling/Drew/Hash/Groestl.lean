import Drew.Hash.Class
import Drew.Memory.BigEndian
import Drew.Stream.Chunks

/-!
# Grøstl

The model of the class `GrøstlImplementation`. It counts its blocks, and apart from that it has
the number of bytes (`m_off`), which the fast update leaves as it is. Only the offset in a block
is taken from it, so whole blocks need not be counted.
-/

namespace Drew

open Drew.Memory Drew.Stream Drew.HashClass

/-- The members that change. -/
structure Groestl (σ : Type) where
  hash : σ
  buf : Buf UInt8 128
  nblocks : BitVec 64
  off : BitVec 64

namespace Groestl

variable {σ : Type}

/-- `GetBlockSize` of `Grøstl512`, which is used for the long digests, and of `Grøstl256`. -/
def blockSize (long : Bool) : Nat := if long then 128 else 64

def reset (s : σ) : Groestl σ where
  hash := s
  buf := Vector.replicate 128 0
  nblocks := 0
  off := 0

/-- `m_off & (BlkSize-1)`. -/
def offset (long : Bool) (h : Groestl σ) : Nat := (h.off &&& BitVec.ofNat 64 (blockSize long - 1)).toNat

variable (f : σ → List UInt8 → σ) (long : Bool)

def transform (h : Groestl σ) (data : List UInt8) : Groestl σ :=
  { h with hash := f h.hash data, nblocks := h.nblocks + 1 }

/-- The block in the buffer. -/
def transformBuf (h : Groestl σ) : Groestl σ := transform f h (h.buf.toList.take (blockSize long))

/-- Fill up the block that an earlier call began. -/
def fill (h : Groestl σ) (noff : Nat) (data : List UInt8) : Option (Groestl σ × List UInt8) :=
  if noff ≠ 0 then do
    let i := min (blockSize long - noff) data.length
    let buf ← h.buf.write noff (data.take i)
    let h := { h with buf := buf }
    return (if i + noff = blockSize long then transformBuf f long h else h, data.drop i)
  else some (h, data)

/-- `Update`, once the bytes are counted. -/
def updateAt (noff : Nat) (h : Groestl σ) (data : List UInt8) : Option (Groestl σ) := do
  let (h, data) ← fill f long h noff data
  let k := data.length / blockSize long
  let h := absorb (blockSize long) (transform f) k h data
  let buf ← h.buf.write 0 (data.drop (k * blockSize long))
  return { h with buf := buf }

def update (h : Groestl σ) (data : List UInt8) : Option (Groestl σ) :=
  updateAt f long (offset long h) { h with off := h.off + BitVec.ofNat 64 data.length } data

def updateFast (h : Groestl σ) (data : List UInt8) : Groestl σ :=
  absorb (blockSize long) (transform f) (data.length / blockSize long) h data

/-- Complete a block without room for the number of blocks, and begin another one. -/
def spill (h : Groestl σ) (noff : Nat) : Option (Groestl σ × Nat) :=
  if blockSize long - 8 ≤ noff then do
    let buf ← h.buf.write (noff + 1) (List.replicate (blockSize long - (noff + 1)) 0)
    return (transformBuf f long { h with buf := buf }, 0)
  else some (h, noff + 1)

/-- `Pad` from the end of the message on. -/
def padAt (noff : Nat) (h : Groestl σ) : Option (Groestl σ) := do
  let trip := blockSize long - 8
  let buf ← h.buf.store noff 0x80
  let (h, off) ← spill f long { h with buf := buf } noff
  let buf ← h.buf.write off (List.replicate (trip - off) 0)
  let nblocks := h.nblocks + 1
  let buf ← buf.write trip (beBytes 8 nblocks.toNat)
  return transformBuf f long { h with buf := buf, nblocks := nblocks }

def pad (h : Groestl σ) : Option (Groestl σ) := padAt f long (offset long h) h

/-- `GetDigest`; `copy` makes the digest of `m_hash`. -/
def getDigest (copy : σ → List UInt8) (h : Groestl σ) : Option (List UInt8) := do
  let h ← pad f long h
  return copy h.hash

/-- The class, as the plugin uses it. -/
abbrev hashClass (copy : σ → List UInt8) (s : σ) : HashClass where
  State := Groestl σ
  blockSize := blockSize long
  reset := reset s
  update := update f long
  updateFast h data := some (updateFast f long h data)
  getDigest := getDigest f long copy

/-! ## The number of bytes -/

variable {f long} {h : Groestl σ} {noff : Nat} {data : List UInt8}

theorem blockSize_pos (long : Bool) : 0 < blockSize long := by cases long <;> decide

theorem blockSize_dvd (long : Bool) : blockSize long ∣ 2 ^ 64 := by cases long <;> decide

theorem offset_eq (long : Bool) (h : Groestl σ) : offset long h = h.off.toNat % blockSize long := by
  unfold offset
  rw [BitVec.toNat_and]
  cases long with
  | false => exact Nat.and_two_pow_sub_one_eq_mod h.off.toNat 6
  | true => exact Nat.and_two_pow_sub_one_eq_mod h.off.toNat 7

def setOff (o : BitVec 64) (h : Groestl σ) : Groestl σ := { h with off := o }

theorem offset_count (long : Bool) (h h' : Groestl σ) (len : Nat) :
    offset long (setOff (h.off + BitVec.ofNat 64 len) h') = (offset long h + len) % blockSize long := by
  rw [offset_eq, offset_eq]
  change (h.off + BitVec.ofNat 64 len).toNat % _ = _
  rw [BitVec.toNat_add, BitVec.toNat_ofNat, Nat.add_mod_mod, Nat.mod_mod_of_dvd _ (blockSize_dvd long),
    Nat.mod_add_mod]

/-! ### Nothing else depends on it -/

theorem absorb_setOff (o : BitVec 64) (bs k : Nat) (h : Groestl σ) (data : List UInt8) :
    absorb bs (transform f) k (setOff o h) data = setOff o (absorb bs (transform f) k h data) := by
  induction k generalizing h data with
  | zero => rfl
  | succ k ih => exact ih (transform f h (data.take bs)) (data.drop bs)

theorem fill_setOff (o : BitVec 64) : fill f long (setOff o h) noff data =
    (fill f long h noff data).map fun r => (setOff o r.1, r.2) := by
  unfold fill
  split
  · change Option.bind _ _ = Option.map _ (Option.bind _ _)
    cases hw : h.buf.write noff (data.take (min (blockSize long - noff) data.length)) with
    | none =>
      change Option.bind (h.buf.write noff _) _ = _
      rw [hw]
      rfl
    | some w =>
      change Option.bind (h.buf.write noff _) _ = _
      rw [hw]
      by_cases hfull : min (blockSize long - noff) data.length + noff = blockSize long
      · simp only [Option.bind_some, if_pos hfull, pure, Option.map_some]
        rfl
      · simp only [Option.bind_some, if_neg hfull, pure, Option.map_some]
        rfl
  · rfl

theorem updateAt_setOff (o : BitVec 64) : updateAt f long noff (setOff o h) data =
    (updateAt f long noff h data).map (setOff o) := by
  unfold updateAt
  rw [fill_setOff]
  cases fill f long h noff data with
  | none => rfl
  | some r =>
    obtain ⟨h', rest⟩ := r
    simp only [Option.map_some, Option.bind_eq_bind, Option.bind_some, absorb_setOff]
    rw [Option.map_bind]
    rfl

theorem spill_setOff (o : BitVec 64) : spill f long (setOff o h) noff =
    (spill f long h noff).map fun r => (setOff o r.1, r.2) := by
  unfold spill
  split
  · simp only [Option.bind_eq_bind, Option.map_bind]
    rfl
  · rfl

theorem padAt_setOff (o : BitVec 64) :
    padAt f long noff (setOff o h) = (padAt f long noff h).map (setOff o) := by
  unfold padAt
  change Option.bind (h.buf.store noff 0x80) _ = Option.map _ (Option.bind (h.buf.store noff 0x80) _)
  cases h.buf.store noff 0x80 with
  | none => rfl
  | some w =>
    have hspill : spill f long (setOff o { h with buf := w }) noff =
        (spill f long { h with buf := w } noff).map fun r => (setOff o r.1, r.2) := spill_setOff o
    change Option.bind (spill f long (setOff o { h with buf := w }) noff) _ =
      Option.map _ (Option.bind (spill f long { h with buf := w } noff) _)
    rw [hspill]
    cases spill f long { h with buf := w } noff with
    | none => rfl
    | some r =>
      simp only [Option.map_some, Option.bind_some, Option.bind_eq_bind, Option.map_bind,
        Function.comp_def]
      rfl

/-! ### The fast update -/

/-- Only the numbers of bytes differ, by whole blocks. -/
def Same (long : Bool) (n : Nat) (s t : Groestl σ) : Prop :=
  s = setOff s.off t ∧ offset long s = n % blockSize long ∧ offset long t = n % blockSize long

variable {s t : Groestl σ} {n : Nat}

theorem Same.update (hs : Same long n s t) (data : List UInt8) :
    Option.Rel (Same long (n + data.length)) (Groestl.update f long s data)
      (Groestl.update f long t data) := by
  obtain ⟨hst, hos, hot⟩ := hs
  have hrun : ∀ h : Groestl σ, h = setOff h.off t → offset long h = n % blockSize long →
      Groestl.update f long h data = (updateAt f long (n % blockSize long) t data).map
        (setOff (h.off + BitVec.ofNat 64 data.length)) := by
    intro h hh ho
    rw [← updateAt_setOff, Groestl.update, ho]
    have hset : setOff (h.off + BitVec.ofNat 64 data.length) h =
        setOff (h.off + BitVec.ofNat 64 data.length) t := by
      rw [hh]
      rfl
    exact congrArg (updateAt f long _ · data) hset
  rw [hrun s hst hos, hrun t rfl hot]
  have hoff : ∀ h h' : Groestl σ, offset long h = n % blockSize long →
      offset long (setOff (h.off + BitVec.ofNat 64 data.length) h') =
        (n + data.length) % blockSize long := by
    intro h h' ho
    rw [offset_count, ho, Nat.mod_add_mod]
  cases updateAt f long (n % blockSize long) t data with
  | none => exact .none
  | some h' => exact .some ⟨rfl, hoff s h' hos, hoff t h' hot⟩

theorem Same.updateFast (hs : Same long n s t) (hn : n % blockSize long = 0)
    (hlen : data.length % blockSize long = 0) :
    Option.Rel (Same long (n + data.length)) (some (Groestl.updateFast f long s data))
      (Groestl.update f long t data) := by
  obtain ⟨hst, hos, hot⟩ := hs
  have hdrop : data.drop (data.length / blockSize long * blockSize long) = [] := by
    apply List.drop_eq_nil_of_le
    have hdiv := Nat.div_add_mod' data.length (blockSize long)
    omega
  have hupdate : Groestl.update f long t data = some (setOff (t.off + BitVec.ofNat 64 data.length)
      (Groestl.updateFast f long t data)) := by
    rw [Groestl.update, hot, hn]
    change updateAt f long 0 (setOff _ t) data = _
    rw [updateAt_setOff]
    have hat : updateAt f long 0 t data = some (Groestl.updateFast f long t data) := by
      unfold updateAt fill
      simp only [ne_eq, not_true_eq_false, if_false, Option.bind_eq_bind, Option.bind_some, hdrop,
        Buf.write_nil _ (Nat.zero_le _), pure]
      rfl
    rw [hat]
    rfl
  have hfast : Groestl.updateFast f long s data = setOff s.off (Groestl.updateFast f long t data) := by
    rw [hst]
    exact absorb_setOff s.off _ _ t data
  rw [hupdate, hfast]
  refine .some ⟨rfl, ?_, ?_⟩
  · rw [offset_eq]
    change s.off.toNat % _ = _
    rw [← offset_eq, hos, Nat.add_mod, hlen, Nat.add_zero, Nat.mod_mod]
  · rw [offset_count, hot, Nat.mod_add_mod]

theorem Same.getDigest (hs : Same long n s t) (copy : σ → List UInt8) :
    Groestl.getDigest f long copy s = Groestl.getDigest f long copy t := by
  obtain ⟨hst, hos, hot⟩ := hs
  have hpad : pad f long s = (pad f long t).map (setOff s.off) := by
    rw [pad, pad, hos, hot, ← padAt_setOff, ← hst]
  rw [Groestl.getDigest, Groestl.getDigest, hpad]
  cases pad f long t <;> rfl

theorem agrees (f : σ → List UInt8 → σ) (long : Bool) (copy : σ → List UInt8) (s : σ) {cs : List Call}
    (hcs : Admissible (blockSize long) 0 cs) : (hashClass f long copy s).Agrees cs := by
  have hreset : offset long (reset s) = 0 % blockSize long := by
    rw [offset_eq]
    rfl
  exact agrees_of_rel (R := Same long) ⟨rfl, hreset, hreset⟩ (fun _ _ _ data h => h.update data)
    (fun _ _ _ _ h hn hlen => h.updateFast hn hlen) (fun _ _ _ h => h.getDigest copy) hcs

end Groestl

end Drew
