import Drew.Mac.Hmac.Model

/-!
# The tags of HMAC

A context that has a key keeps the key bytes in `keybuf`, and its two hash contexts have
absorbed the pads. `setkey_spec` and `reset_spec` say which key bytes these are. After a reset
there are none if the key is empty, and a digest that is longer than a block is hashed again.
-/

namespace Drew.Mac.Hmac

open Drew.Memory Drew.Mode

/-! ## What HMAC is meant to compute -/

/-- The key, filled up with zeros to as many bytes as the hash algorithm absorbs in one step; a
longer key is hashed first. -/
def blockKey (A : HashAlgorithm) (key : List UInt8) : List UInt8 :=
  let k := if A.rate < key.length then A.digest key else key
  (k ++ List.replicate (A.rate - k.length) 0).take A.rate

def hmac (A : HashAlgorithm) (key m : List UInt8) : List UInt8 :=
  A.digest ((blockKey A key).map (0x5c ^^^ ·) ++
    A.digest ((blockKey A key).map (0x36 ^^^ ·) ++ m))

/-! ## The calls -/

inductive Op where
  | setkey (key : List UInt8)
  | reset
  | update (data : List UInt8)
  | final (stale : Buf UInt8 256)

variable {A : HashAlgorithm}

def step (c : Hmac A) : Op → Option (Hmac A)
  | .setkey key => c.setkey key
  | .reset => c.reset
  | .update data => some (c.update data)
  | .final stale => (c.final stale).map (·.1)

/-- The key last set. -/
def nextKey (k : Option (List UInt8)) : Op → Option (List UInt8)
  | .setkey key => some key
  | _ => k

/-- How a context came to have the key ready. -/
inductive Start where
  | keyed
  | reset
  deriving DecidableEq, Repr

/-- A context that just got its key, or was reset after any calls since. -/
inductive Ready (A : HashAlgorithm) (taglen : Nat) (key : List UInt8) : Start → Hmac A → Prop
  | keyed {algo : A.Ctx} {ops : List Op} {c₀ c₁ c : Hmac A} (hinit : init algo taglen = .ok c₀)
      (hrun : ops.foldlM step c₀ = some c₁) (hset : c₁.setkey key = some c) :
      Ready A taglen key .keyed c
  | reset {algo : A.Ctx} {ops : List Op} {c₀ c₁ c : Hmac A} (hinit : init algo taglen = .ok c₀)
      (hrun : ops.foldlM step c₀ = some c₁) (hkey : ops.foldl nextKey none = some key)
      (hreset : c₁.reset = some c) : Ready A taglen key .reset c

/-- The tag of a message that is given in pieces. -/
def tagOf (stale : Buf UInt8 256) (c : Hmac A) (pieces : List (List UInt8)) :
    Option (List UInt8) :=
  ((pieces.foldl update c).final stale).map (·.2)

/-! ## Setting a key -/

/-- The members that no function changes. -/
structure Sized (t : Nat) (c : Hmac A) : Prop where
  blksz : c.blksz = A.blksize
  blksz_le : A.blksize ≤ bufferSize
  digestsz : c.digestsz = A.size
  size_le : A.size ≤ bufferSize
  taglen : c.taglen = t

/-- The key bytes of a context. -/
structure HasKey (k : List UInt8) (c : Hmac A) : Prop where
  holds : c.keybuf.Holds 0 k
  keybufsz : c.keybufsz = k.length

/-- What the hash contexts have absorbed. -/
structure Absorbed (o i : List UInt8) (c : Hmac A) : Prop where
  outside : A.Absorbed c.outside o
  inside : A.Absorbed c.inside i

/-- The key bytes that are kept of a key. -/
def keyBytes (A : HashAlgorithm) (key : List UInt8) : List UInt8 :=
  if A.blksize < key.length then A.digest key else key

/-- A block of the reported size, made of key bytes. -/
def padded (A : HashAlgorithm) (x : UInt8) (k : List UInt8) : List UInt8 :=
  (k.take A.blksize).map (x ^^^ ·) ++ List.replicate (A.blksize - k.length) x

theorem length_padded (x : UInt8) (k : List UInt8) : (padded A x k).length = A.blksize := by
  rw [padded, List.length_append, List.length_map, List.length_take, List.length_replicate]
  omega

theorem length_keyBytes_le {t : Nat} {c : Hmac A} (h : Sized t c) (key : List UInt8) :
    (keyBytes A key).length ≤ bufferSize := by
  have hb := h.blksz_le
  have hs := h.size_le
  unfold keyBytes
  split
  · rw [A.length_digest]
    exact hs
  · omega

variable {t : Nat} {c c' : Hmac A} {k key o i : List UInt8}

theorem keepKey_spec (h : Sized t c) (own : Bool) (hown : own = true → HasKey key c) :
    ∃ kb kbsz, keepKey c own key =
        some ({ c with keybuf := kb, keybufsz := kbsz }, (keyBytes A key).length) ∧
      HasKey (keyBytes A key) { c with keybuf := kb, keybufsz := kbsz } := by
  have hlen := length_keyBytes_le h key
  by_cases hlong : A.blksize < key.length
  · have habs : A.Absorbed (A.update (A.reset (A.clone c.inside)) key) key :=
      A.absorbed_update key (A.absorbed_reset _)
    have hfinal : (A.final (A.update (A.reset (A.clone c.inside)) key) c.digestsz).2 =
        A.digest key := by
      rw [h.digestsz]
      exact A.final_of_absorbed habs
    have hbytes : keyBytes A key = A.digest key := if_pos hlong
    have hsize : (A.digest key).length = c.digestsz := by rw [h.digestsz, A.length_digest]
    rw [hbytes] at hlen ⊢
    obtain ⟨w, hw⟩ := Buf.exists_write_at c.keybuf 0 (A.digest key) (by simpa using hlen)
    refine ⟨w, c.digestsz, ?_, Buf.holds_write hw, hsize.symm⟩
    rw [keepKey, if_pos (by rw [h.blksz]; exact hlong), hsize]
    dsimp only
    rw [hfinal, hw]
    rfl
  · have hbytes : keyBytes A key = key := if_neg hlong
    rw [hbytes] at hlen ⊢
    rw [keepKey, if_neg (by rw [h.blksz]; exact hlong)]
    cases own with
    | false =>
      obtain ⟨w, hw⟩ := Buf.exists_write_at c.keybuf 0 key (by simpa using hlen)
      refine ⟨w, key.length, ?_, Buf.holds_write hw, rfl⟩
      rw [if_pos rfl, hw]
      rfl
    | true => exact ⟨c.keybuf, c.keybufsz, by rw [if_neg (by decide)], hown rfl⟩

theorem pad_take (x : UInt8) (k : List UInt8) (h : A.blksize ≤ bufferSize) :
    pad x (k.take A.blksize) A.blksize = some (padded A x k) := by
  rw [pad, if_pos h, padded, List.length_take]
  congr 3
  omega

theorem setkeyFrom_spec (h : Sized t c) (own : Bool) (hown : own = true → HasKey key c) :
    ∃ c', setkeyFrom c own key = some c' ∧ Sized t c' ∧ HasKey (keyBytes A key) c' ∧
      Absorbed (padded A 0x5c (keyBytes A key)) (padded A 0x36 (keyBytes A key)) c' := by
  obtain ⟨kb, kbsz, hkeep, hkey⟩ := keepKey_spec h own hown
  have hread : kb.read 0 (min (keyBytes A key).length A.blksize) =
      some ((keyBytes A key).take A.blksize) := by
    have hk : kb.Holds 0 (keyBytes A key) := hkey.holds
    rw [← List.take_append_drop A.blksize (keyBytes A key)] at hk
    have hr := hk.left.read
    rwa [List.length_take, Nat.min_comm] at hr
  refine ⟨{ c with
    keybuf := kb
    keybufsz := kbsz
    outside := A.update (A.reset c.outside) (padded A 0x5c (keyBytes A key))
    inside := A.update (A.reset c.inside) (padded A 0x36 (keyBytes A key)) }, ?_,
    ⟨h.blksz, h.blksz_le, h.digestsz, h.size_le, h.taglen⟩, ⟨hkey.holds, hkey.keybufsz⟩,
    A.absorbed_update _ (A.absorbed_reset _), A.absorbed_update _ (A.absorbed_reset _)⟩
  rw [setkeyFrom, hkeep]
  simp only [Option.bind_eq_bind, Option.bind_some, h.blksz, hread, pad_take _ _ h.blksz_le, pure]

theorem setkey_spec (h : Sized t c) (key : List UInt8) :
    ∃ c', c.setkey key = some c' ∧ Sized t c' ∧ HasKey (keyBytes A key) c' ∧
      Absorbed (padded A 0x5c (keyBytes A key)) (padded A 0x36 (keyBytes A key)) c' :=
  setkeyFrom_spec h false (by simp)

/-- Without key bytes nothing is absorbed after a reset. -/
theorem reset_of_nil (h : Sized t c) (hk : HasKey [] c) :
    ∃ c', c.reset = some c' ∧ Sized t c' ∧ HasKey [] c' ∧ Absorbed [] [] c' := by
  have hz : c.keybufsz = 0 := hk.keybufsz
  refine ⟨{ c with outside := A.reset c.outside, inside := A.reset c.inside }, ?_,
    ⟨h.blksz, h.blksz_le, h.digestsz, h.size_le, h.taglen⟩, ⟨hk.holds, hk.keybufsz⟩,
    A.absorbed_reset _, A.absorbed_reset _⟩
  rw [reset]
  exact if_neg (by simpa using hz)

theorem reset_of_ne_nil (h : Sized t c) (hk : HasKey k c) (hne : k ≠ []) :
    ∃ c', c.reset = some c' ∧ Sized t c' ∧ HasKey (keyBytes A k) c' ∧
      Absorbed (padded A 0x5c (keyBytes A k)) (padded A 0x36 (keyBytes A k)) c' := by
  have hpos : c.keybufsz ≠ 0 := by
    rw [hk.keybufsz]
    exact fun hz => hne (List.length_eq_zero_iff.mp hz)
  have hread : c.keybuf.read 0 c.keybufsz = some k := by
    rw [hk.keybufsz]
    exact hk.holds.read
  have hs : Sized t { c with outside := A.reset c.outside, inside := A.reset c.inside } :=
    ⟨h.blksz, h.blksz_le, h.digestsz, h.size_le, h.taglen⟩
  have hk' : HasKey k { c with outside := A.reset c.outside, inside := A.reset c.inside } :=
    ⟨hk.holds, hk.keybufsz⟩
  obtain ⟨c', hset, hspec⟩ := setkeyFrom_spec hs true fun _ => hk'
  refine ⟨c', ?_, hspec⟩
  rw [reset]
  simp only [if_pos hpos, hread, Option.bind_eq_bind, Option.bind_some]
  exact hset

/-! ## The tag -/

theorem foldl_update (h : Sized t c) (ha : Absorbed o i c) (pieces : List (List UInt8)) :
    Sized t (pieces.foldl update c) ∧ Absorbed o (i ++ pieces.flatten) (pieces.foldl update c) := by
  induction pieces generalizing c i with
  | nil => exact ⟨h, by simpa using ha⟩
  | cons data pieces ih =>
    have hupdate : Absorbed o (i ++ data) (c.update data) :=
      ⟨ha.outside, A.absorbed_update data ha.inside⟩
    rw [List.foldl_cons, List.flatten_cons, ← List.append_assoc]
    exact ih ⟨h.blksz, h.blksz_le, h.digestsz, h.size_le, h.taglen⟩ hupdate

/-- The buffer begins with the digest of the outside when the tag is read from it. The contexts
are left without pads. -/
theorem final_spec (h : Sized t c) (ha : Absorbed o i c) (stale : Buf UInt8 256) :
    ∃ (w : Buf UInt8 256) (c' : Hmac A), w.Holds 0 (A.digest (o ++ A.digest i)) ∧
      c.final stale = (w.read 0 t).map (fun d => (c', d)) ∧
      Sized t c' ∧ Absorbed [] [] c' ∧ ∀ k, HasKey k c → HasKey k c' := by
  have hle := h.size_le
  have hin : (A.final c.inside c.digestsz).2 = A.digest i := by
    rw [h.digestsz]
    exact A.final_of_absorbed ha.inside
  have hout : (A.final (A.update c.outside (A.digest i)) c.digestsz).2 =
      A.digest (o ++ A.digest i) := by
    rw [h.digestsz]
    exact A.final_of_absorbed (A.absorbed_update _ ha.outside)
  obtain ⟨v, hv⟩ := Buf.exists_write_at stale 0 (A.digest i) (by simpa [A.length_digest] using hle)
  obtain ⟨w, hw⟩ := Buf.exists_write_at v 0 (A.digest (o ++ A.digest i))
    (by simpa [A.length_digest] using hle)
  have hread : v.read 0 c.digestsz = some (A.digest i) := by
    rw [h.digestsz, ← A.length_digest i]
    exact (Buf.holds_write hv).read
  refine ⟨w, { c with
    inside := A.reset (A.final c.inside c.digestsz).1
    outside := A.reset (A.final (A.update c.outside (A.digest i)) c.digestsz).1 },
    Buf.holds_write hw, ?_, ⟨h.blksz, h.blksz_le, h.digestsz, h.size_le, h.taglen⟩,
    ⟨A.absorbed_reset _, A.absorbed_reset _⟩, fun k hk => ⟨hk.holds, hk.keybufsz⟩⟩
  rw [final]
  simp only [hin, hv, hread, hout, hw, h.taglen, Option.bind_eq_bind, Option.bind_some, pure]
  cases w.read 0 t <;> rfl

theorem tagOf_spec (h : Sized t c) (ha : Absorbed o i c) (stale : Buf UInt8 256)
    (pieces : List (List UInt8)) (ht : t ≤ A.size) :
    tagOf stale c pieces =
      some ((A.digest (o ++ A.digest (i ++ pieces.flatten))).take t) := by
  obtain ⟨hs, ha'⟩ := foldl_update h ha pieces
  obtain ⟨w, c', hw, hfinal, -⟩ := final_spec hs ha' stale
  rw [← List.take_append_drop t (A.digest _)] at hw
  have hr := hw.left.read
  rw [List.length_take, A.length_digest, Nat.min_eq_left ht] at hr
  rw [tagOf, hfinal, hr]
  rfl

/-- A tag that is to be longer than the digest is not part of it. -/
theorem tagOf_ne (h : Sized t c) (ha : Absorbed o i c) (stale : Buf UInt8 256)
    (pieces : List (List UInt8)) (ht : A.size < t) {d : List UInt8} (hd : d.length = A.size) :
    tagOf stale c pieces ≠ some (d.take t) := by
  obtain ⟨hs, ha'⟩ := foldl_update h ha pieces
  obtain ⟨w, c', -, hfinal, -⟩ := final_spec hs ha' stale
  rw [tagOf, hfinal, Option.map_map]
  intro heq
  obtain ⟨tag, hread, htag⟩ := Option.map_eq_some_iff.mp heq
  have hlen := (Buf.holds_of_read hread).1
  rw [show tag = d.take t from htag] at hlen
  rw [List.length_take] at hlen
  omega

end Drew.Mac.Hmac
