import Drew.Hash.Blake2b.Update

/-!
# Messages in pieces

The compressions of a message are those that are specified exactly if no call leaves a whole
block in the buffer while more data follow, the last block was not already compressed when its
last byte came, and a whole last block that is left in the buffer has nothing but zeros, with
which the padding overwrites it (`blake2b_rfc_iff`). A block that is lost is missed at the end
(`lost_run`, `lost_pad`).
-/

namespace Drew.Blake2b

open Drew.Memory Drew.Stream Drew.Hash

variable {σ : Type} {f : σ → Compression → σ} {s : σ} {m data : List UInt8} {q n : Nat}

/-- A compression function that notes its calls. -/
def note (es : List Compression) (e : Compression) : List Compression := es ++ [e]

theorem foldl_note (es cs : List Compression) : cs.foldl note es = es ++ cs := foldl_snoc es cs

/-! ## Blocks that are lost -/

/-- There are fewer notes than blocks so far, and this will not be made up for. -/
structure Lost (n : Nat) (h : Ctx (List Compression)) : Prop where
  counts : Counts h n
  missing : h.hash.length + 1 ≤ n / 128
  last : n % 128 = 0 → h.hash.length + 2 ≤ n / 128 ∨
    ∃ es b, h.hash = es ++ [compression b n false]

variable {h : Ctx (List Compression)}

/-- What follows does not make up for a missing block. -/
theorem lost_update (hc : Counts h n) (hmiss : h.hash.length + 1 ≤ n / 128) (hne : data ≠ []) :
    ∃ h', update note h data = some h' ∧ Lost (n + data.length) h' := by
  have hpos := List.length_pos_of_ne_nil hne
  obtain ⟨h', hupdate, hcount, hcase⟩ := update_cases (f := note) hc data
  refine ⟨h', hupdate, hcount, ?_, ?_⟩
  · rcases hcase with ⟨h0, hhash, -⟩ | ⟨h0, hpart, hhash, -⟩ | ⟨h0, hfull, w, i, rest, hi, hrest, -, hhash, -⟩
    · rw [hhash, foldl_note, List.length_append, length_blockCalls]
      omega
    · rw [hhash]
      omega
    · have hrlen : rest.length = data.length - i := by rw [hrest, List.length_drop]
      rw [hhash, foldl_note, List.length_append, length_blockCalls, note, List.length_append,
        List.length_singleton]
      omega
  · intro hmod
    rcases hcase with ⟨h0, hhash, -⟩ | ⟨h0, hpart, hhash, -⟩ | ⟨h0, hfull, w, i, rest, hi, hrest, -, hhash, -⟩
    · left
      rw [hhash, foldl_note, List.length_append, length_blockCalls]
      omega
    · omega
    · have hrlen : rest.length = data.length - i := by rw [hrest, List.length_drop]
      by_cases hnil : rest = []
      · right
        have hn : n + data.length = n + i := by
          rw [hnil, List.length_nil] at hrlen
          omega
        refine ⟨h.hash, w.toList, ?_⟩
        rw [hhash, hnil, hn]
        rfl
      · left
        have hrpos := List.length_pos_of_ne_nil hnil
        rw [hhash, foldl_note, List.length_append, length_blockCalls, note, List.length_append,
          List.length_singleton]
        omega

theorem lost_run (hl : Lost n h) (pieces : List (List UInt8)) :
    ∃ h', pieces.foldlM (update note) h = some h' ∧ Lost (n + pieces.flatten.length) h' := by
  induction pieces generalizing n h with
  | nil => exact ⟨h, rfl, hl⟩
  | cons p ps ih =>
    obtain ⟨h₁, hupdate, hl₁⟩ : ∃ h₁, update note h p = some h₁ ∧ Lost (n + p.length) h₁ := by
      by_cases hp : p = []
      · rw [hp]
        exact ⟨h, update_nil hl.counts, hl⟩
      · exact lost_update hl.counts hl.missing hp
    obtain ⟨h', hrun, hl'⟩ := ih hl₁
    refine ⟨h', ?_, ?_⟩
    · rw [List.foldlM_cons, hupdate]
      exact hrun
    · rwa [List.flatten_cons, List.length_append, ← Nat.add_assoc]

theorem length_compressions (m : List UInt8) : (compressions m).length = before m + 1 := by
  rw [compressions, List.length_append, length_steps, List.length_singleton]

/-- Equal counters have equal low words. -/
theorem compression_inj {b b' : List UInt8} {t t' : Nat} {e e' : Bool}
    (h : compression b t e = compression b' t' e') : b = b' ∧ t % 2 ^ 64 = t' % 2 ^ 64 := by
  have hblock := congrArg Compression.block h
  have hlen := congrArg (fun e => e.len0.toNat) h
  simp only [compression, BitVec.toNat_ofNat] at hlen
  exact ⟨hblock, hlen⟩

/-- A lost block is missing at the end. -/
theorem lost_pad (hl : Lost m.length h) :
    ∃ h', pad note h = some h' ∧ h'.hash ≠ compressions m := by
  obtain ⟨h', w, hpad, -, hhash⟩ := pad_spec (f := note) hl.counts
  refine ⟨h', hpad, fun heq => ?_⟩
  have hlen := congrArg List.length heq
  have hmiss := hl.missing
  rw [hhash, note, List.length_append, List.length_singleton, length_compressions, before] at hlen
  have hmod : m.length % 128 = 0 := by omega
  rcases hl.last hmod with hmiss' | ⟨es, b, hes⟩
  · omega
  · -- The notes end with two compressions that have the same counter.
    rw [hes, List.length_append, List.length_singleton] at hlen hmiss
    obtain ⟨q, hq⟩ : ∃ q, before m = q + 1 := ⟨es.length, by rw [before]; omega⟩
    rw [hhash, hes, note, compressions, hq, steps_succ] at heq
    have hlast := List.append_inj' heq rfl
    have hinit := List.append_inj' hlast.1 rfl
    have hcount := (compression_inj (List.singleton_inj.mp hinit.2)).2
    rw [before] at hq
    omega

/-! ## The condition -/

/-- A call that leaves a whole block in the buffer is the last one that has data, and one that
completes a block is not. `n` bytes were given before the pieces. -/
def Avoids : Nat → List (List UInt8) → Prop
  | _, [] => True
  | n, p :: ps => (Loses n p.length → ps.flatten = []) ∧ (Completes n p.length → ps.flatten ≠ []) ∧
      Avoids (n + p.length) ps

instance : ∀ n pieces, Decidable (Avoids n pieces)
  | _, [] => inferInstanceAs (Decidable True)
  | n, p :: ps =>
      have : Decidable (Avoids (n + p.length) ps) := instDecidableAvoids (n + p.length) ps
      inferInstanceAs (Decidable (_ ∧ _ ∧ _))

/-- A whole last block has nothing but zeros. -/
def ZeroEnd (m : List UInt8) : Prop :=
  m ≠ [] → m.length % 128 = 0 → m.drop (m.length - 128) = List.replicate 128 0

theorem avoids_of_flatten_nil {ps : List (List UInt8)} (hps : ps.flatten = []) (n : Nat) :
    Avoids n ps := by
  induction ps generalizing n with
  | nil => trivial
  | cons p ps ih =>
    rw [List.flatten_cons, List.append_eq_nil_iff] at hps
    obtain ⟨rfl, hps⟩ := hps
    refine ⟨fun _ => hps, ?_, ih hps _⟩
    rintro ⟨h0, hsum⟩
    rw [List.length_nil] at hsum
    omega

/-- Empty calls change nothing. -/
theorem run_nil {c : Ctx σ} (hc : Counts c n) {ps : List (List UInt8)} (hps : ps.flatten = []) :
    ps.foldlM (update f) c = some c := by
  induction ps with
  | nil => rfl
  | cons p ps ih =>
    rw [List.flatten_cons, List.append_eq_nil_iff] at hps
    obtain ⟨rfl, hps⟩ := hps
    rw [List.foldlM_cons, update_nil hc]
    exact ih hps

/-- The padding completes the compressions if the rest is what the counter says. -/
theorem held_pad {c : Ctx σ} (hh : Held f s q m c) (hlt : m.length < (q + 1) * 128)
    (hrest : m = [] ∨ q * 128 < m.length) :
    ∃ c', pad f c = some c' ∧ c'.hash = (compressions m).foldl f s := by
  obtain ⟨c', hpad, hhash⟩ := hh.pad hlt
  have hlo := hh.lo
  rw [Nat.add_mul, Nat.one_mul] at hlt
  have hq : before m = q := by
    unfold before
    rcases hrest with rfl | hrest
    · rw [List.length_nil] at hlo ⊢
      omega
    · omega
  refine ⟨c', hpad, ?_⟩
  rw [hhash, compressions, lastBlock, hq]

/-! ## Runs -/

/-- A call that neither loses a block nor completes one ends within a block. -/
theorem ends_within {n len : Nat} (hlen : 0 < len) (hlo : q * 128 ≤ n + len)
    (hloses : ¬ Loses n len) (hcompletes : ¬ Completes n len) : q * 128 < n + len := by
  by_contra hle
  have hmod : (n + len) % 128 = 0 := by omega
  by_cases h0 : n % 128 = 0
  · exact hloses ⟨hlen, hmod, Or.inl h0⟩
  · by_cases hsum : n % 128 + len = 128
    · exact hcompletes ⟨h0, hsum⟩
    · exact hloses ⟨hlen, hmod, Or.inr hsum⟩

/-- The last block of a message of whole blocks. -/
theorem lastBlock_full (hfull : m.length = (q + 1) * 128) :
    before m = q ∧ lastBlock m = m.drop (m.length - 128) := by
  have hq : before m = q := by
    unfold before
    omega
  refine ⟨hq, ?_⟩
  rw [lastBlock, hq, show m.length - 128 = q * 128 by omega,
    show 128 - (m.length - q * 128) = 0 by omega, List.replicate_zero, List.append_nil]

/-- From a state that lost nothing. -/
theorem run_of_avoids {c : Ctx σ} (hh : Held f s q m c) (hlt : m.length < (q + 1) * 128)
    {pieces : List (List UInt8)} (hok : Avoids m.length pieces)
    (hmore : pieces.flatten = [] → m = [] ∨ q * 128 < m.length)
    (hzero : ZeroEnd (m ++ pieces.flatten)) :
    ∃ c' c'', pieces.foldlM (update f) c = some c' ∧ pad f c' = some c'' ∧
      c''.hash = (compressions (m ++ pieces.flatten)).foldl f s := by
  induction pieces generalizing m q c with
  | nil =>
    obtain ⟨c', hpad, hhash⟩ := held_pad hh hlt (hmore rfl)
    refine ⟨c, c', rfl, hpad, ?_⟩
    rwa [List.flatten_nil, List.append_nil]
  | cons p ps ih =>
    obtain ⟨hloses, hcompletes, hok'⟩ := hok
    rw [List.flatten_cons, ← List.append_assoc] at hzero ⊢
    by_cases hp : p = []
    · subst hp
      rw [List.append_nil] at hzero ⊢
      obtain ⟨c', c'', hrun, hpad, hhash⟩ := ih hh hlt hok' hmore hzero
      refine ⟨c', c'', ?_, hpad, hhash⟩
      rw [List.foldlM_cons, update_nil hh.counts]
      exact hrun
    · obtain ⟨c₁, q', hupdate, hh₁, hcase⟩ := hh.update hlt hp
      have hlo := hh₁.lo
      rw [List.length_append] at hlo
      rcases hcase with ⟨hnot, hlt'⟩ | ⟨hbad, hfull⟩
      · rw [← List.length_append] at hok'
        obtain ⟨c', c'', hrun, hpad, hhash⟩ := ih hh₁ hlt' hok' (fun hnil => by
          right
          rw [List.length_append]
          exact ends_within (List.length_pos_of_ne_nil hp) hlo hnot fun hc => hcompletes hc hnil) hzero
        refine ⟨c', c'', ?_, hpad, hhash⟩
        rw [List.foldlM_cons, hupdate]
        exact hrun
      · -- The block that is left in the buffer is the last one.
        have hnil := hloses hbad
        rw [hnil, List.append_nil] at hzero ⊢
        obtain ⟨c', hpad, hhash⟩ := hh₁.pad_full hfull
        obtain ⟨hq, hlast⟩ := lastBlock_full hfull
        have hne : m ++ p ≠ [] := by simp [hp]
        refine ⟨c₁, c', ?_, hpad, ?_⟩
        · rw [List.foldlM_cons, hupdate]
          exact run_nil hh₁.counts hnil
        · rw [hhash, compressions, hq, hlast, hzero hne (by omega)]

/-- After a block was lost the compressions are not those of the message. -/
theorem lost_of_more {ps : List (List UInt8)} (hc : Counts h n) (hmiss : h.hash.length + 1 ≤ n / 128)
    (hps : ps.flatten ≠ []) :
    ∃ h', ps.foldlM (update note) h = some h' ∧ Lost (n + ps.flatten.length) h' := by
  induction ps with
  | nil => exact absurd rfl hps
  | cons p ps ih =>
    rw [List.flatten_cons]
    by_cases hp : p = []
    · subst hp
      obtain ⟨h', hrun, hl⟩ := ih (by simpa using hps)
      refine ⟨h', ?_, hl⟩
      rw [List.foldlM_cons, update_nil hc]
      exact hrun
    · obtain ⟨h₁, hupdate, hl₁⟩ := lost_update hc hmiss hp
      obtain ⟨h', hrun, hl'⟩ := lost_run hl₁ ps
      refine ⟨h', ?_, by rwa [List.length_append, ← Nat.add_assoc]⟩
      rw [List.foldlM_cons, hupdate]
      exact hrun

/-- Right compressions come from calls that avoid the two ends. -/
theorem avoids_of_run {c c' c'' : Ctx (List Compression)} (hh : Held note [] q m c)
    (hlt : m.length < (q + 1) * 128) {pieces : List (List UInt8)}
    (hmore : pieces.flatten = [] → m = [] ∨ q * 128 < m.length)
    (hrun : pieces.foldlM (update note) c = some c') (hpad : pad note c' = some c'')
    (hhash : c''.hash = compressions (m ++ pieces.flatten)) :
    Avoids m.length pieces ∧ ZeroEnd (m ++ pieces.flatten) := by
  induction pieces generalizing m q c with
  | nil =>
    refine ⟨trivial, fun hne hmod => ?_⟩
    rw [List.flatten_nil, List.append_nil] at hne hmod
    rcases hmore rfl with hnil | hin
    · exact absurd hnil hne
    · omega
  | cons p ps ih =>
    rw [List.flatten_cons, ← List.append_assoc] at hhash ⊢
    by_cases hp : p = []
    · subst hp
      rw [List.foldlM_cons, update_nil hh.counts] at hrun
      rw [List.append_nil] at hhash ⊢
      obtain ⟨hok, hzero⟩ := ih hh hlt hmore hrun hhash
      refine ⟨⟨?_, ?_, hok⟩, hzero⟩
      · rintro ⟨hpos, -⟩
        exact absurd hpos (lt_irrefl 0)
      · rintro ⟨h0, hsum⟩
        rw [List.length_nil] at hsum
        omega
    · obtain ⟨c₁, q', hupdate, hh₁, hcase⟩ := hh.update hlt hp
      rw [List.foldlM_cons, hupdate] at hrun
      change ps.foldlM (update note) c₁ = some c' at hrun
      have hlo := hh₁.lo
      rcases hcase with ⟨hnot, hlt'⟩ | ⟨hbad, hfull⟩
      · have hcompletes : Completes m.length p.length → ps.flatten ≠ [] := by
          -- The block was compressed when it was complete, and the padding adds another one.
          rintro ⟨h0, hsum⟩ hnil
          rw [run_nil hh₁.counts hnil] at hrun
          obtain rfl := Option.some.inj hrun
          obtain ⟨c₂, hpad', hhash'⟩ := hh₁.pad hlt'
          obtain rfl := Option.some.inj (hpad'.symm.trans hpad)
          rw [hhash', foldl_note, hnil, List.append_nil, List.nil_append] at hhash
          have hlen := congrArg List.length hhash
          rw [List.length_append, length_steps, List.length_singleton, length_compressions, before,
            List.length_append] at hlen
          rw [List.length_append] at hlo hlt'
          omega
        have hmore' : ps.flatten = [] → m ++ p = [] ∨ q' * 128 < (m ++ p).length := by
          intro hnil
          right
          rw [List.length_append] at hlo ⊢
          exact ends_within (List.length_pos_of_ne_nil hp) hlo hnot fun hc => hcompletes hc hnil
        obtain ⟨hok, hzero⟩ := ih hh₁ hlt' hmore' hrun hhash
        rw [List.length_append] at hok
        exact ⟨⟨fun hbad => absurd hbad hnot, hcompletes, hok⟩, hzero⟩
      · have hnil : ps.flatten = [] := by
          by_contra hps
          have hmiss : c₁.hash.length + 1 ≤ (m ++ p).length / 128 := by
            rw [hh₁.hash, foldl_note, List.nil_append, length_steps]
            omega
          obtain ⟨c₂, hrun', hl⟩ := lost_of_more hh₁.counts hmiss hps
          obtain rfl := Option.some.inj (hrun'.symm.trans hrun)
          rw [← List.length_append] at hl
          obtain ⟨c₃, hpad', hne⟩ := lost_pad hl
          obtain rfl := Option.some.inj (hpad'.symm.trans hpad)
          exact hne hhash
        rw [run_nil hh₁.counts hnil] at hrun
        obtain rfl := Option.some.inj hrun
        obtain ⟨c₂, hpad', hhash'⟩ := hh₁.pad_full hfull
        obtain rfl := Option.some.inj (hpad'.symm.trans hpad)
        obtain ⟨hq, hlast⟩ := lastBlock_full hfull
        rw [hhash', foldl_note, hnil, List.append_nil, List.nil_append, compressions, hq, hlast] at hhash
        have hblock := (compression_inj (List.singleton_inj.mp (List.append_cancel_left hhash))).1
        refine ⟨⟨fun _ => hnil, ?_, avoids_of_flatten_nil hnil _⟩, ?_⟩
        · rintro ⟨h0, hsum⟩
          obtain ⟨-, -, hor⟩ := hbad
          omega
        · intro _ _
          rw [hnil, List.append_nil]
          exact hblock.symm

/-! ## Digests -/

/-- The function of the class is that of the specification. -/
theorem transformWith_eq (st : Vector UInt64 8) (block : List UInt8) (t : Nat) (isFinal : Bool) :
    transformWith st (compression block t isFinal) = Rfc7693.F st (loadWords block) t isFinal := by
  have hword : ∀ k : Nat, UInt64.ofNat (BitVec.ofNat Hash.Params.words64.wordBits k).toNat = UInt64.ofNat k := by
    intro k
    apply UInt64.toNat_inj.mp
    rw [UInt64.toNat_ofNat', UInt64.toNat_ofNat', BitVec.toNat_ofNat]
    exact Nat.mod_mod _ _
  rw [transformWith, compression, hword, hword, transform_eq]

/-- The specified hash is the fold over the compressions of the message. -/
theorem blake2b_eq_foldl (nn : Nat) (m : List UInt8) :
    Rfc7693.blake2b nn m =
      (wordBytes ((compressions m).foldl transformWith (initialHash nn))).take nn := by
  have hsteps : ∀ st, (steps (before m) m).foldl transformWith st =
      (List.range (before m)).foldl (fun h i =>
        Rfc7693.F h (loadWords ((m.drop (i * 128)).take 128)) ((i + 1) * 128) false) st := by
    intro st
    rw [steps, List.foldl_map]
    congr 1
    ext h i : 2
    exact transformWith_eq h _ _ _
  rw [compressions, List.foldl_append, hsteps, List.foldl_cons, List.foldl_nil, transformWith_eq,
    Rfc7693.blake2b, initialHash, UInt64.xor_assoc]

/-- The compressions of the message and its digest are those that are specified. -/
def Conforms (digestlen : Nat) (pieces : List (List UInt8)) : Prop :=
  hashPieces note [] pieces = some (compressions pieces.flatten) ∧
    digest digestlen pieces = some (Rfc7693.blake2b digestlen pieces.flatten)

theorem hashPieces_of_avoids (f : σ → Compression → σ) (s : σ) {pieces : List (List UInt8)}
    (hok : Avoids 0 pieces) (hzero : ZeroEnd pieces.flatten) :
    hashPieces f s pieces = some ((compressions pieces.flatten).foldl f s) := by
  obtain ⟨c', c'', hrun, hpad, hhash⟩ := run_of_avoids (held_nil f s) (by simp) hok
    (fun _ => Or.inl rfl) (by rwa [List.nil_append])
  rw [List.nil_append] at hhash
  simp only [hashPieces, hrun, hpad, hhash, Option.bind_eq_bind, Option.bind_some, pure]

theorem avoids_of_hashPieces {pieces : List (List UInt8)}
    (h : hashPieces note [] pieces = some (compressions pieces.flatten)) :
    Avoids 0 pieces ∧ ZeroEnd pieces.flatten := by
  obtain ⟨c', hrun, h⟩ := Option.bind_eq_some_iff.mp h
  obtain ⟨c'', hpad, h⟩ := Option.bind_eq_some_iff.mp h
  have hboth := avoids_of_run (held_nil note []) (by simp) (fun _ => Or.inl rfl) hrun hpad
    (by rw [List.nil_append]; exact Option.some.inj h)
  rwa [List.nil_append] at hboth

/-- A message in pieces is hashed as specified exactly if no call leaves a whole block in the
buffer while more data follow, the last call with data does not complete a block that an
earlier one began, and a whole last block has nothing but zeros. -/
theorem blake2b_rfc_iff (digestlen : Nat) (pieces : List (List UInt8)) :
    Conforms digestlen pieces ↔ Avoids 0 pieces ∧ ZeroEnd pieces.flatten := by
  constructor
  · rintro ⟨hnotes, -⟩
    exact avoids_of_hashPieces hnotes
  · rintro ⟨hok, hzero⟩
    refine ⟨?_, ?_⟩
    · rw [hashPieces_of_avoids note [] hok hzero, foldl_note, List.nil_append]
    · rw [digest, hashPieces_of_avoids transformWith (initialHash digestlen) hok hzero,
        Option.map_some, blake2b_eq_foldl]

/-- One block of ones in one call: zeros are hashed instead. -/
theorem blake2b_whole_block :
    hashPieces note [] [List.replicate 128 1] =
        some [compression (List.replicate 128 0) 128 true] ∧
      digest 1 [List.replicate 128 1] ≠ some (Rfc7693.blake2b 1 (List.replicate 128 1)) := by
  constructor <;> decide +kernel

end Drew.Blake2b
