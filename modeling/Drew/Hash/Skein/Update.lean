import Drew.Hash.Template

/-!
# Skein

The model of the class `Skein`. Its `Update` holds back a whole block (`full`), because the last
block of a message is processed with another tweak. The position in the tweak is `m_len[0]`. The
fast update is the one of the template, which knows neither. Processing a block (`UBIBlock`) is a
parameter.

The high word of the length and the first word of the tweak between two blocks are left out:
nothing reads them.
-/

namespace Drew

open Drew.Memory

/-- A call of `UBIBlock`: the block and the two words of the tweak. -/
structure Skein.Step where
  block : List UInt8
  position : BitVec 64
  flags : BitVec 64
  deriving DecidableEq

/-- The members, of which `m_hash` has any type. -/
structure Skein (σ : Type) where
  hash : σ
  buf : Buf UInt8 64
  len0 : BitVec 64
  full : Bool
  tweak1 : BitVec 64

namespace Skein

def bitFirst : BitVec 64 := 1 <<< 62
def bitFinal : BitVec 64 := 1 <<< 63
def typeMsg : BitVec 64 := 48 <<< 56
def typeOut : BitVec 64 := 63 <<< 56

variable {σ : Type}

/-- The members after `Reset`; `s` is what the configuration block leaves in `m_hash`. -/
def reset (s : σ) : Skein σ where
  hash := s
  buf := Vector.replicate 64 0
  len0 := 0
  full := false
  tweak1 := typeMsg ||| bitFirst

/-- `m_len[0] += len`. -/
def count (h : Skein σ) (len : Nat) : Skein σ := { h with len0 := h.len0 + BitVec.ofNat 64 len }

variable (ubi : σ → Step → σ)

def transform (h : Skein σ) (data : List UInt8) (final : Bool) : Skein σ :=
  let flags := h.tweak1 ||| if final then bitFinal else 0
  { h with hash := ubi h.hash ⟨data, h.len0, flags⟩, tweak1 := flags &&& ~~~bitFirst }

/-- Process the block that is held back. -/
def release (h : Skein σ) : Skein σ :=
  let h := if h.full then transform ubi h h.buf.toList false else h
  { h with full := false }

/-- Data that end within the block, or with it. -/
def updateShort (h : Skein σ) (off : Nat) (data : List UInt8) : Option (Skein σ) := do
  let buf ← h.buf.write off data
  return count { h with buf := buf, full := off + data.length == 64 } data.length

/-- Fill up the block that an earlier call began. -/
def fill (h : Skein σ) (off : Nat) (data : List UInt8) : Option (Skein σ × List UInt8) :=
  if off ≠ 0 then do
    let i := 64 - off
    let buf ← h.buf.write off (data.take i)
    return (transform ubi (count { h with buf := buf } i) buf.toList false, data.drop i)
  else some (h, data)

/-- Process `k` blocks of the data, each counted before. -/
def wholeBlocks : Nat → Skein σ → List UInt8 → Skein σ × List UInt8
  | 0, h, data => (h, data)
  | k + 1, h, data =>
      wholeBlocks k (transform ubi (count h 64) (data.take 64) false) (data.drop 64)

/-- Data that go beyond the block. The loop goes on as long as more than a block is left. -/
def updateLong (h : Skein σ) (off : Nat) (data : List UInt8) : Option (Skein σ) := do
  let (h, data) ← fill ubi h off data
  let (h, data) := wholeBlocks ubi ((data.length - 1) / 64) h data
  let buf ← h.buf.write 0 data
  return count { h with buf := buf, full := data.length == 64 } data.length

def update (h : Skein σ) (data : List UInt8) : Option (Skein σ) :=
  if data.length = 0 then some h else
    let off := h.len0.toNat % 64
    let h := release ubi h
    if off + data.length ≤ 64 then updateShort h off data else updateLong ubi h off data

/-- `UpdateFast` of the template: all bytes are counted before the first block. -/
def updateFast (h : Skein σ) (data : List UInt8) : Skein σ :=
  (List.range (data.length / 64)).foldl
    (fun h i => transform ubi h ((data.drop (i * 64)).take 64) false) (count h data.length)

/-- Fill up an incomplete block with zeros. -/
def fillZeros (h : Skein σ) : Option (Skein σ) :=
  if h.full = false then do
    let off := h.len0.toNat % 64
    let buf ← h.buf.write off (List.replicate (64 - off) 0)
    return { h with buf := buf }
  else some h

def pad (h : Skein σ) : Option (Skein σ) := do
  let h ← fillZeros h
  return transform ubi h h.buf.toList true

/-- `GetDigest`; `copy` takes the bytes of `m_hash`. The output is one more block, of zeros. -/
def getDigest (copy : σ → List UInt8) (h : Skein σ) : Option (List UInt8) := do
  let h ← pad ubi h
  return copy (ubi h.hash ⟨List.replicate 64 0, 8, typeOut ||| bitFirst ||| bitFinal⟩)

end Skein

end Drew

/-!
## Updates of Skein

The last block of a message is held back until more data come (`Held`). A state whose blocks are
all processed is `Opened`: this is what `release` makes, and what fast updates leave. From it an
update goes on in the same way (`update_spec`).
-/

namespace Drew.Skein

open Drew.Memory

variable {σ : Type} {ubi : σ → Step → σ} {s : σ} {m data : List UInt8} {h h' : Skein σ} {q k : Nat}

/-! ## The steps of a message -/

/-- The flags of the block `i`, but for the last one. -/
def flagsAt (i : Nat) : BitVec 64 := if i = 0 then typeMsg ||| bitFirst else typeMsg

def stepAt (m : List UInt8) (i : Nat) : Step :=
  ⟨(m.drop (i * 64)).take 64, BitVec.ofNat 64 ((i + 1) * 64), flagsAt i⟩

/-- The steps of the first `q` blocks. -/
def steps (q : Nat) (m : List UInt8) : List Step := (List.range q).map (stepAt m)

@[simp] theorem length_steps (q : Nat) (m : List UInt8) : (steps q m).length = q := by
  simp [steps]

theorem steps_succ (q : Nat) (m : List UInt8) : steps (q + 1) m = steps q m ++ [stepAt m q] := by
  simp [steps, List.range_succ]

/-- The first blocks of a text do not depend on what follows. -/
theorem steps_append (h : q * 64 ≤ m.length) (x : List UInt8) : steps q (m ++ x) = steps q m := by
  apply List.map_congr_left
  intro i hi
  have hi' : i < q := List.mem_range.mp hi
  have hle : (i + 1) * 64 ≤ q * 64 := Nat.mul_le_mul_right _ hi'
  rw [Nat.add_mul, Nat.one_mul] at hle
  rw [stepAt, stepAt, List.drop_append_of_le_length (by omega),
    List.take_append_of_le_length (by rw [List.length_drop]; omega)]

theorem flagsAt_clear (q : Nat) : (flagsAt q ||| 0) &&& ~~~bitFirst = typeMsg := by
  unfold flagsAt
  split <;> decide

/-! ## Blocks -/

/-- The first `q` blocks of a message are processed. -/
structure Done (ubi : σ → Step → σ) (s : σ) (q : Nat) (m : List UInt8) (h : Skein σ) : Prop where
  len0 : h.len0 = BitVec.ofNat 64 m.length
  hash : h.hash = (steps q m).foldl ubi s
  tweak1 : h.tweak1 = flagsAt q
  lo : q * 64 ≤ m.length

theorem Done.off_eq (hd : Done ubi s q m h) : h.len0.toNat % 64 = m.length % 64 := by
  rw [hd.len0, BitVec.toNat_ofNat]
  omega

theorem Done.count (hd : Done ubi s q m h) (x : List UInt8) :
    Done ubi s q (m ++ x) (Skein.count h x.length) := by
  have hlo := hd.lo
  refine ⟨?_, ?_, hd.tweak1, ?_⟩
  · rw [List.length_append, BitVec.ofNat_add, ← hd.len0]
    rfl
  · rw [steps_append hd.lo]
    exact hd.hash
  · rw [List.length_append]
    omega

/-- The next block of the message is processed where the message ends. -/
theorem Done.transform (hd : Done ubi s q m h) (hm : m.length = (q + 1) * 64) :
    Done ubi s (q + 1) m (Skein.transform ubi h (m.drop (q * 64)) false) := by
  refine ⟨hd.len0, ?_, ?_, hm.ge⟩
  · have hblock : (m.drop (q * 64)).take 64 = m.drop (q * 64) := by
      apply List.take_of_length_le
      rw [List.length_drop]
      omega
    have hflags : h.tweak1 ||| (if false = true then bitFinal else 0) = flagsAt q := by
      rw [if_neg Bool.false_ne_true, hd.tweak1]
      exact BitVec.or_zero
    rw [steps_succ, List.foldl_append, ← hd.hash, stepAt, hblock, ← hm, ← hd.len0, ← hflags]
    rfl
  · rw [flagsAt, if_neg (Nat.succ_ne_zero q), ← flagsAt_clear q, ← hd.tweak1]
    rfl

theorem wholeBlocks_spec (hd : Done ubi s q m h) (hm : m.length = q * 64) (k : Nat)
    {text : List UInt8} (hk : k * 64 ≤ text.length) :
    ∃ h', wholeBlocks ubi k h text = (h', text.drop (k * 64)) ∧ h'.buf = h.buf ∧
      h'.full = h.full ∧ Done ubi s (q + k) (m ++ text.take (k * 64)) h' := by
  induction k generalizing q m h text with
  | zero =>
    refine ⟨h, by simp [wholeBlocks], rfl, rfl, ?_⟩
    rwa [Nat.zero_mul, List.take_zero, List.append_nil]
  | succ k ih =>
    rw [Nat.add_mul, Nat.one_mul] at hk
    have hlen : (text.take 64).length = 64 := by
      rw [List.length_take]
      omega
    have hcount := hd.count (text.take 64)
    rw [hlen] at hcount
    have hend : (m ++ text.take 64).length = (q + 1) * 64 := by
      rw [List.length_append, hlen, hm, Nat.add_mul, Nat.one_mul]
    have hdone := hcount.transform hend
    rw [← hm, List.drop_left] at hdone
    have hrest : k * 64 ≤ (text.drop 64).length := by
      rw [List.length_drop]
      omega
    obtain ⟨h', hrun, hbuf, hfull, hdone'⟩ := ih hdone hend hrest
    refine ⟨h', ?_, hbuf, hfull, ?_⟩
    · rw [wholeBlocks, hrun, List.drop_drop]
      congr 2
      ring
    · have htake : text.take ((k + 1) * 64) = text.take 64 ++ (text.drop 64).take (k * 64) := by
        rw [← List.take_add]
        congr 1
        ring
      rw [htake, ← List.append_assoc, show q + (k + 1) = q + 1 + k by ring]
      exact hdone'

/-! ## The state after a message -/

/-- The number of blocks before the last one. The empty message has one block, too. -/
def before (m : List UInt8) : Nat := (m.length - 1) / 64

/-- The last block is in the buffer, as far as it goes. -/
structure Held (ubi : σ → Step → σ) (s : σ) (q : Nat) (m : List UInt8) (h : Skein σ) : Prop where
  done : Done ubi s q m h
  buf : h.buf.Holds 0 (m.drop (q * 64))
  hi : m.length ≤ (q + 1) * 64
  full : h.full = (m.length == (q + 1) * 64)

/-- All whole blocks are processed. -/
structure Opened (ubi : σ → Step → σ) (s : σ) (m : List UInt8) (h : Skein σ) : Prop where
  done : Done ubi s (m.length / 64) m h
  buf : h.buf.Holds 0 (m.drop (m.length / 64 * 64))
  full : h.full = false

theorem opened_nil (ubi : σ → Step → σ) (s : σ) : Opened ubi s [] (reset s) := by
  refine ⟨⟨rfl, rfl, rfl, Nat.zero_le _⟩, ?_, rfl⟩
  rw [List.drop_nil]
  exact Buf.holds_nil (Nat.zero_le _)

theorem held_nil (ubi : σ → Step → σ) (s : σ) : Held ubi s 0 [] (reset s) := by
  refine ⟨⟨rfl, rfl, rfl, Nat.zero_le _⟩, ?_, Nat.zero_le _, rfl⟩
  rw [List.drop_nil]
  exact Buf.holds_nil (Nat.zero_le _)

theorem Opened.release (ho : Opened ubi s m h) : release ubi h = h := by
  obtain ⟨hash, buf, len0, full, tweak1⟩ := h
  obtain rfl : full = false := ho.full
  rfl

/-- The block that is held back is processed. -/
theorem Held.release (hh : Held ubi s q m h) : Opened ubi s m (release ubi h) := by
  have hlo := hh.done.lo
  have hhi := hh.hi
  rw [Nat.add_mul, Nat.one_mul] at hhi
  by_cases hend : m.length = (q + 1) * 64
  · have hfull : h.full = true := by rw [hh.full, hend, beq_self_eq_true]
    have hq : m.length / 64 = q + 1 := by omega
    have hbuf := hh.buf.toList (by rw [List.length_drop]; omega)
    have hdone := hh.done.transform hend
    rw [← hbuf] at hdone
    refine ⟨?_, ?_, rfl⟩
    · rw [hq]
      unfold Skein.release
      rw [if_pos hfull]
      exact ⟨hdone.len0, hdone.hash, hdone.tweak1, hdone.lo⟩
    · rw [hq, ← hend, List.drop_length]
      exact Buf.holds_nil (Nat.zero_le _)
  · have hfull : h.full = false := by
      rw [hh.full]
      exact beq_eq_false_iff_ne.mpr hend
    have hq : m.length / 64 = q := by omega
    have ho : Opened ubi s m h := by
      refine ⟨?_, ?_, hfull⟩
      · rw [hq]
        exact hh.done
      · rw [hq]
        exact hh.buf
    rwa [ho.release]

/-! ## Calls -/

/-- From the end of a block on, more than nothing. -/
theorem finish_spec (hd : Done ubi s q m h) (hm : m.length = q * 64)
    {rest : List UInt8} (hrest : 0 < rest.length) :
    ∃ h' w, wholeBlocks ubi ((rest.length - 1) / 64) h rest =
        (h', rest.drop ((rest.length - 1) / 64 * 64)) ∧
      h'.buf.write 0 (rest.drop ((rest.length - 1) / 64 * 64)) = some w ∧
      Held ubi s (before (m ++ rest)) (m ++ rest)
        (count { h' with
          buf := w
          full := (rest.drop ((rest.length - 1) / 64 * 64)).length == 64 }
          (rest.drop ((rest.length - 1) / 64 * 64)).length) := by
  obtain ⟨k, hk⟩ : ∃ k, k = (rest.length - 1) / 64 := ⟨_, rfl⟩
  rw [← hk]
  have hkle : k * 64 ≤ rest.length := by omega
  obtain ⟨h', hrun, hbuf, hfull', hdone⟩ := wholeBlocks_spec hd hm k hkle
  have hlast : (rest.drop (k * 64)).length = rest.length - k * 64 := List.length_drop
  obtain ⟨w, hwrite⟩ := Buf.exists_write_at h'.buf 0 (rest.drop (k * 64)) (by omega)
  have hsplit : m ++ rest = m ++ rest.take (k * 64) ++ rest.drop (k * 64) := by
    rw [List.append_assoc, List.take_append_drop]
  have hlen : (m ++ rest.take (k * 64)).length = (q + k) * 64 := by
    rw [List.length_append, List.length_take, Nat.add_mul]
    omega
  have htotal : (m ++ rest).length = q * 64 + rest.length := by rw [List.length_append, hm]
  have hbefore : before (m ++ rest) = q + k := by
    rw [before, htotal]
    omega
  refine ⟨h', w, hrun, hwrite, ?_⟩
  rw [hbefore]
  have hcount := hdone.count (rest.drop (k * 64))
  rw [← hsplit] at hcount
  refine ⟨⟨hcount.len0, hcount.hash, hcount.tweak1, hcount.lo⟩, ?_, ?_, ?_⟩
  · rw [hsplit, ← hlen, List.drop_left]
    exact Buf.holds_write hwrite
  · rw [htotal, Nat.add_mul, Nat.add_mul]
    omega
  · change ((rest.drop (k * 64)).length == 64) = _
    rw [hlast, htotal, Bool.eq_iff_iff, beq_iff_eq, beq_iff_eq, Nat.add_mul, Nat.add_mul]
    omega

theorem updateShort_spec (ho : Opened ubi s m h) (hne : 0 < data.length)
    (hshort : m.length % 64 + data.length ≤ 64) :
    ∃ h', updateShort h (m.length % 64) data = some h' ∧
      Held ubi s (before (m ++ data)) (m ++ data) h' := by
  obtain ⟨q, hq⟩ : ∃ q, q = m.length / 64 := ⟨_, rfl⟩
  have hdone := ho.done
  have hbuf := ho.buf
  rw [← hq] at hdone hbuf
  have hrest : (m.drop (q * 64)).length = m.length % 64 := by
    rw [List.length_drop]
    omega
  obtain ⟨w, hwrite⟩ := Buf.exists_write_at h.buf (m.length % 64) data hshort
  have hbefore : before (m ++ data) = q := by
    rw [before, List.length_append]
    omega
  have hcount := hdone.count data
  refine ⟨count { h with buf := w, full := m.length % 64 + data.length == 64 } data.length, ?_, ?_⟩
  · rw [updateShort, hwrite]
    rfl
  · rw [hbefore]
    refine ⟨⟨hcount.len0, hcount.hash, hcount.tweak1, hcount.lo⟩, ?_, ?_, ?_⟩
    · rw [List.drop_append_of_le_length (by omega)]
      apply Buf.Holds.append
      · exact hbuf.write_of_disjoint hwrite (Or.inr (by omega))
      · rw [hrest, Nat.zero_add]
        exact Buf.holds_write hwrite
    · rw [List.length_append, Nat.add_mul]
      omega
    · change (m.length % 64 + data.length == 64) = _
      rw [List.length_append, Bool.eq_iff_iff, beq_iff_eq, beq_iff_eq, Nat.add_mul]
      omega

theorem updateLong_spec (ho : Opened ubi s m h) (hlong : 64 < m.length % 64 + data.length) :
    ∃ h', updateLong ubi h (m.length % 64) data = some h' ∧
      Held ubi s (before (m ++ data)) (m ++ data) h' := by
  obtain ⟨q, hq⟩ : ∃ q, q = m.length / 64 := ⟨_, rfl⟩
  have hdone := ho.done
  have hbuf := ho.buf
  rw [← hq] at hdone hbuf
  by_cases h0 : m.length % 64 = 0
  · have hm : m.length = q * 64 := by omega
    have hpos : 0 < data.length := by omega
    obtain ⟨h', w, hrun, hwrite, hheld⟩ := finish_spec hdone hm hpos
    refine ⟨_, ?_, hheld⟩
    have hfill : fill ubi h (m.length % 64) data = some (h, data) := by
      rw [fill, if_neg (not_not.mpr h0)]
    simp only [updateLong, hfill, hrun, hwrite, Option.bind_eq_bind, Option.bind_some, pure]
  · obtain ⟨i, hi⟩ : ∃ i, i = 64 - m.length % 64 := ⟨_, rfl⟩
    have htake : (data.take i).length = i := by
      rw [List.length_take]
      omega
    have hrest : (m.drop (q * 64)).length = m.length % 64 := by
      rw [List.length_drop]
      omega
    obtain ⟨w, hwrite⟩ := Buf.exists_write_at h.buf (m.length % 64) (data.take i) (by omega)
    have hm : (m ++ data.take i).length = (q + 1) * 64 := by
      rw [List.length_append, htake, Nat.add_mul]
      omega
    have hblock : w.toList = (m ++ data.take i).drop (q * 64) := by
      apply Buf.Holds.toList
      · rw [List.drop_append_of_le_length (by omega)]
        apply Buf.Holds.append
        · exact hbuf.write_of_disjoint hwrite (Or.inr (by omega))
        · rw [hrest, Nat.zero_add]
          exact Buf.holds_write hwrite
      · rw [List.length_drop, hm, Nat.add_mul]
        omega
    have hcount : Done ubi s q (m ++ data.take i) (count { h with buf := w } i) := by
      have hc := hdone.count (data.take i)
      rw [htake] at hc
      exact ⟨hc.len0, hc.hash, hc.tweak1, hc.lo⟩
    have hdone' := hcount.transform hm
    rw [← hblock] at hdone'
    have hpos : 0 < (data.drop i).length := by
      rw [List.length_drop]
      omega
    obtain ⟨h', w', hrun, hwrite', hheld⟩ := finish_spec hdone' hm hpos
    rw [List.append_assoc, List.take_append_drop] at hheld
    refine ⟨_, ?_, hheld⟩
    have hfill : fill ubi h (m.length % 64) data =
        some (transform ubi (count { h with buf := w } i) w.toList false, data.drop i) := by
      rw [fill, if_pos h0]
      simp only [← hi, hwrite, Option.bind_eq_bind, Option.bind_some, pure]
    simp only [updateLong, hfill, hrun, hwrite', Option.bind_eq_bind, Option.bind_some, pure]

/-- An update, once the block that was held back is processed. -/
theorem update_spec (ho : Opened ubi s m (release ubi h)) (hlen0 : h.len0.toNat % 64 = m.length % 64)
    (hne : data ≠ []) : ∃ h', update ubi h data = some h' ∧
      Held ubi s (before (m ++ data)) (m ++ data) h' := by
  have hpos := List.length_pos_of_ne_nil hne
  rw [update, if_neg (by omega)]
  dsimp only
  rw [hlen0]
  by_cases hshort : m.length % 64 + data.length ≤ 64
  · rw [if_pos hshort]
    exact updateShort_spec ho hpos hshort
  · rw [if_neg hshort]
    exact updateLong_spec ho (by omega)

theorem Held.update (hh : Held ubi s (before m) m h) (data : List UInt8) :
    ∃ h', Skein.update ubi h data = some h' ∧ Held ubi s (before (m ++ data)) (m ++ data) h' := by
  by_cases hnil : data = []
  · subst hnil
    rw [List.append_nil]
    exact ⟨h, by rw [Skein.update, if_pos List.length_nil], hh⟩
  · exact update_spec hh.release hh.done.off_eq hnil

theorem Opened.update (ho : Opened ubi s m h) (hne : data ≠ []) :
    ∃ h', Skein.update ubi h data = some h' ∧ Held ubi s (before (m ++ data)) (m ++ data) h' := by
  apply update_spec _ ho.done.off_eq hne
  rwa [ho.release]

/-- The fast update with one block. -/
theorem Opened.updateFast (ho : Opened ubi s m h) (hm : m.length % 64 = 0)
    (hlen : data.length = 64) : Opened ubi s (m ++ data) (Skein.updateFast ubi h data) := by
  have hcount := ho.done.count data
  have hend : (m ++ data).length = (m.length / 64 + 1) * 64 := by
    rw [List.length_append, hlen, Nat.add_mul]
    omega
  have hdone := hcount.transform hend
  rw [show m.length / 64 * 64 = m.length by omega, List.drop_left] at hdone
  have hq : (m ++ data).length / 64 = m.length / 64 + 1 := by omega
  have hfast : Skein.updateFast ubi h data = transform ubi (Skein.count h data.length) data false := by
    rw [Skein.updateFast, hlen, show List.range (64 / 64) = [0] from rfl, List.foldl_cons,
      List.foldl_nil, Nat.zero_mul, List.drop_zero, List.take_of_length_le hlen.le]
  rw [hfast]
  refine ⟨by rwa [hq], ?_, ho.full⟩
  rw [hq, ← hend, List.drop_length]
  exact Buf.holds_nil (Nat.zero_le _)

/-! ## Padding -/

/-- The step of the last block, filled up with zeros. -/
def lastStep (q : Nat) (m : List UInt8) : Step :=
  ⟨m.drop (q * 64) ++ List.replicate (64 - (m.length - q * 64)) 0, BitVec.ofNat 64 m.length,
    flagsAt q ||| bitFinal⟩

theorem Done.transform_final (hd : Done ubi s q m h) (block : List UInt8) :
    (Skein.transform ubi h block true).hash = (steps q m ++
      [Step.mk block (BitVec.ofNat 64 m.length) (flagsAt q ||| bitFinal)]).foldl ubi s := by
  rw [List.foldl_append, ← hd.hash, ← hd.len0, ← hd.tweak1]
  rfl

/-- An incomplete block is filled up. -/
theorem Opened.pad (ho : Opened ubi s m h) : ∃ h', Skein.pad ubi h = some h' ∧
    h'.hash = (steps (m.length / 64) m ++ [lastStep (m.length / 64) m]).foldl ubi s := by
  obtain ⟨q, hq⟩ : ∃ q, q = m.length / 64 := ⟨_, rfl⟩
  have hdone := ho.done
  have hbuf := ho.buf
  rw [← hq] at hdone hbuf ⊢
  have hrest : (m.drop (q * 64)).length = m.length % 64 := by
    rw [List.length_drop]
    omega
  obtain ⟨w, hwrite⟩ := Buf.exists_write_at h.buf (m.length % 64)
    (List.replicate (64 - m.length % 64) 0) (by rw [List.length_replicate]; omega)
  have hw : w.toList = m.drop (q * 64) ++ List.replicate (64 - (m.length - q * 64)) 0 := by
    rw [show m.length - q * 64 = m.length % 64 by omega]
    apply Buf.Holds.toList
    · apply Buf.Holds.append
      · exact hbuf.write_of_disjoint hwrite (Or.inr (by omega))
      · rw [hrest, Nat.zero_add]
        exact Buf.holds_write hwrite
    · rw [List.length_append, hrest, List.length_replicate]
      omega
  have hdone' : Done ubi s q m { h with buf := w } :=
    ⟨hdone.len0, hdone.hash, hdone.tweak1, hdone.lo⟩
  refine ⟨transform ubi { h with buf := w } w.toList true, ?_, ?_⟩
  · simp only [Skein.pad, fillZeros, ho.full, if_true, hdone.off_eq, hwrite, Option.bind_eq_bind,
      Option.bind_some, pure]
  · rw [hdone'.transform_final, hw]
    rfl

theorem Held.pad (hh : Held ubi s q m h) : ∃ h', Skein.pad ubi h = some h' ∧
    h'.hash = (steps q m ++ [lastStep q m]).foldl ubi s := by
  have hlo := hh.done.lo
  have hhi := hh.hi
  rw [Nat.add_mul, Nat.one_mul] at hhi
  by_cases hend : m.length = (q + 1) * 64
  · have hfull : h.full = true := by rw [hh.full, hend, beq_self_eq_true]
    have hbuf := hh.buf.toList (by rw [List.length_drop]; omega)
    have hzero : 64 - (m.length - q * 64) = 0 := by omega
    refine ⟨transform ubi h h.buf.toList true, ?_, ?_⟩
    · simp only [Skein.pad, fillZeros, hfull, Bool.true_eq_false, if_false, Option.bind_eq_bind,
        Option.bind_some, pure]
    · rw [hh.done.transform_final, lastStep, hbuf, hzero, List.replicate_zero, List.append_nil]
  · have hfull : h.full = false := by
      rw [hh.full]
      exact beq_eq_false_iff_ne.mpr hend
    have hq : m.length / 64 = q := by omega
    have ho : Opened ubi s m h := by
      refine ⟨?_, ?_, hfull⟩
      · rw [hq]
        exact hh.done
      · rw [hq]
        exact hh.buf
    rw [← hq]
    exact ho.pad

end Drew.Skein
