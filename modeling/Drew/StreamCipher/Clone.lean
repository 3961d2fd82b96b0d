import Drew.StreamCipher.ChaCha
import Drew.StreamCipher.Salsa20

/-!
# Copies of a context

The copy constructors of `ChaCha` and `Salsa20` copy the key stream, but neither `m_buf` nor `m_nbytes`.
What the memory of the copy had there before decides how the copy goes on.
-/

namespace Drew.StreamCipher

open Drew.Memory Drew.Stream

/-- The classes with such a copy constructor. -/
inductive CopiesKeystream : Cipher → Prop
  | chacha (nrounds : Nat) : CopiesKeystream (chacha nrounds)
  | salsa20 (nrounds : Nat) : CopiesKeystream (salsa20 nrounds)

namespace Cipher

variable {C : Cipher} {c d mem : C.Context}

/-- The copy constructor, in memory of any contents. -/
def clone (mem c : C.Context) : C.Context := { mem with m := c.m }

/-- All later calls of `Encrypt` give the same. -/
def Continues (c d : C.Context) : Prop :=
  ∀ datas, (run C.encrypt c datas).map Prod.snd = (run C.encrypt d datas).map Prod.snd

/-- One call, with a buffer that is not full. -/
theorem encrypt_spec (hc : c.nbytes < C.bufsz) (data : List UInt8) :
    ∃ c', C.encrypt c data = some (c', maskWith (C.keystream c) data) ∧ c'.nbytes < C.bufsz ∧
      C.keystream c' = advance (C.keystream c) data.length :=
  copyAndXor_spec C.bufsz_pos C.bufsz_lt hc.le fun h => absurd h hc.ne

/-- The outputs are those of the keystream. -/
theorem continues_iff (hc : c.nbytes < C.bufsz) (hd : d.nbytes < C.bufsz) :
    C.Continues c d ↔ C.keystream c = C.keystream d := by
  constructor
  · intro h
    funext i
    obtain ⟨c', hcall, -⟩ := encrypt_spec hc (List.replicate (i + 1) 0)
    obtain ⟨d', hcall', -⟩ := encrypt_spec hd (List.replicate (i + 1) 0)
    have hout := h [List.replicate (i + 1) 0]
    rw [run_cons_some _ hcall, run_cons_some _ hcall'] at hout
    have hmask : maskWith (C.keystream c) (List.replicate (i + 1) 0) =
        maskWith (C.keystream d) (List.replicate (i + 1) 0) := by
      simpa using hout
    have hbyte := congrArg (fun l => l[i]?) hmask
    simpa [maskWith] using hbyte
  · intro hkey datas
    let R : C.Context → C.Context → Prop := fun c d =>
      c.nbytes < C.bufsz ∧ d.nbytes < C.bufsz ∧ C.keystream c = C.keystream d
    have hstep : ∀ c d data, R c d →
        Option.Rel (fun p q => R p.1 q.1 ∧ p.2 = q.2) (C.encrypt c data) (C.encrypt d data) := by
      rintro c d data ⟨hc, hd, hkey⟩
      obtain ⟨c', hcall, hc', hkey'⟩ := encrypt_spec hc data
      obtain ⟨d', hcall', hd', hkey''⟩ := encrypt_spec hd data
      rw [hcall, hcall']
      exact .some ⟨⟨hc', hd', by rw [hkey', hkey'', hkey]⟩, by rw [hkey]⟩
    have hrun := run_bisim hstep ⟨hc, hd, hkey⟩ datas
    generalize run C.encrypt c datas = r at hrun ⊢
    generalize run C.encrypt d datas = r' at hrun ⊢
    cases hrun with
    | none => rfl
    | some hp => exact congrArg some hp.2

/-- The bytes that are not used yet. -/
def unread (c : C.Context) : List UInt8 := c.buf.toList.drop (C.bufsz - c.nbytes)

theorem getElem?_unread (c : C.Context) (i : Nat) :
    (unread c)[i]? = c.buf[C.bufsz - c.nbytes + i]? := by
  rw [unread, List.getElem?_drop, Vector.getElem?_toList]

theorem keystream_eq_iff (hm : c.m = d.m) (hnbytes : c.nbytes = d.nbytes) (hc : c.nbytes ≤ C.bufsz) :
    C.keystream c = C.keystream d ↔ unread c = unread d := by
  constructor
  · intro hkey
    apply List.ext_getElem?
    intro i
    rw [getElem?_unread, getElem?_unread, ← hnbytes]
    by_cases hi : i < c.nbytes
    · have hbyte := congrFun hkey i
      rw [keystream, keystream, StreamCipher.keystream, StreamCipher.keystream, ← hnbytes, if_pos hi,
        if_pos hi] at hbyte
      have hlt : C.bufsz - c.nbytes + i < C.bufsz := by omega
      rw [Vector.getElem?_eq_getElem hlt, Vector.getElem?_eq_getElem hlt] at hbyte ⊢
      exact congrArg some hbyte
    · rw [Vector.getElem?_eq_none (by omega), Vector.getElem?_eq_none (by omega)]
  · intro hunread
    apply keystream_congr (S := Eq) (fun m m' hmm => by rw [hmm]; exact ⟨rfl, rfl⟩) hm hnbytes
    intro i _
    have hbyte := congrArg (fun l => l[i]?) hunread
    simp only [getElem?_unread] at hbyte
    rwa [← hnbytes] at hbyte

/-- A copy in memory that has one byte left, which is not the next one of the keystream. -/
theorem exists_not_continues (hc : c.nbytes < C.bufsz) (hone : 1 < C.bufsz) :
    ∃ mem : C.Context, mem.nbytes < C.bufsz ∧ ¬ C.Continues (clone mem c) c := by
  obtain ⟨mem, hmem⟩ : ∃ mem : C.Context, mem = ⟨c.m, Vector.replicate C.bufsz (C.keystream c 0 ^^^ 1), 1⟩ :=
    ⟨_, rfl⟩
  have hlt : mem.nbytes < C.bufsz := by rwa [hmem]
  have hlast : C.keystream (clone mem c) 0 = C.keystream c 0 ^^^ 1 := by
    rw [hmem]
    have hpos : 0 < (clone mem c).nbytes := by
      rw [hmem]
      exact Nat.one_pos
    rw [hmem] at hpos
    rw [keystream, StreamCipher.keystream, if_pos hpos]
    change ((Vector.replicate C.bufsz (C.keystream c 0 ^^^ 1))[C.bufsz - 1 + 0]?).getD 0 = _
    rw [Vector.getElem?_replicate, if_pos (by omega)]
    rfl
  refine ⟨mem, hlt, fun hsame => ?_⟩
  have hkey := congrFun ((continues_iff (c := clone mem c) hlt hc).mp hsame) 0
  rw [hlast] at hkey
  have hone := congrArg (C.keystream c 0 ^^^ ·) hkey
  simp only [← UInt8.xor_assoc, UInt8.xor_self, UInt8.zero_xor] at hone
  exact absurd hone (by decide)

end Cipher

open Cipher

theorem CopiesKeystream.nbytes_lt (hC : CopiesKeystream C) {key : List UInt8} {iv : Option (List UInt8)}
    (h : C.Reaches (some key) iv c) : c.nbytes < C.bufsz := by
  cases hC with
  | chacha nrounds => exact (ChaCha.laws nrounds).nbytes_lt h
  | salsa20 nrounds => exact (Salsa20.laws nrounds).nbytes_lt h

/-- From no context does the copy go on as the original whatever its memory had. If the memory had
the same count, it does just if it had the same unread bytes. -/
theorem clone_continues (hC : CopiesKeystream C) {key : List UInt8} {iv : Option (List UInt8)}
    (h : C.Reaches (some key) iv c) :
    (¬ ∀ mem, C.Continues (clone mem c) c) ∧
      ∀ mem : C.Context, mem.nbytes = c.nbytes →
        (C.Continues (clone mem c) c ↔ unread mem = unread c) := by
  have hc := hC.nbytes_lt h
  have hone : 1 < C.bufsz := by
    cases hC with
    | chacha => exact (by decide : 1 < 64)
    | salsa20 => exact (by decide : 1 < 64)
  constructor
  · obtain ⟨mem, -, hmem⟩ := exists_not_continues hc hone
    exact fun hall => hmem (hall mem)
  · intro mem hnbytes
    have hlt : (clone mem c).nbytes < C.bufsz := hnbytes.trans_lt hc
    rw [continues_iff hlt hc]
    exact keystream_eq_iff rfl hnbytes hlt.le

/-- A fresh context of Salsa20, and a copy in memory that had one byte left. -/
theorem salsa20_clone_diverges :
    ∃ c : (salsa20 10).Context, ∃ mem : (salsa20 10).Context,
      (salsa20 10).start ⟨⟨Vector.replicate 16 0, 0, 0, 0⟩, Vector.replicate 64 0, 0⟩
        (List.replicate 16 0) (some (List.replicate 8 0)) = some c ∧
      mem.nbytes < 64 ∧ ¬ (salsa20 10).Continues (clone mem c) c := by
  obtain ⟨c, hstart, h0, -⟩ := (Salsa20.laws 10).start_spec
    ⟨⟨Vector.replicate 16 0, 0, 0, 0⟩, Vector.replicate 64 0, 0⟩
    (⟨by decide, [8], rfl, by decide⟩ : (salsa20 10).Accepts (List.replicate 16 0)
      (some (List.replicate 8 0)))
  obtain ⟨mem, hmem, hdiverges⟩ := exists_not_continues (c := c)
    (h0.trans_lt (salsa20 10).bufsz_pos) (by decide : 1 < 64)
  exact ⟨c, mem, hstart, hmem, hdiverges⟩

theorem clone_continues_chacha :
    ∃ c : (chacha 10).Context, ∃ iv, (chacha 10).Reaches (some (List.replicate 16 0)) iv c ∧
      (chacha 10).Continues (clone c c) c := by
  have h : (chacha 10).Accepts (List.replicate 16 0) (some (List.replicate 8 0)) :=
    ⟨by decide, [8, 12], rfl, by decide⟩
  obtain ⟨c, hstart, -⟩ := (ChaCha.laws 10).start_spec
    ⟨⟨Vector.replicate 16 0, 0, 0, 0, 0⟩, Vector.replicate 64 0, 0⟩ h
  have hreach := reaches_start h hstart
  exact ⟨c, _, hreach, ((clone_continues (.chacha 10) hreach).2 c rfl).mpr rfl⟩

end Drew.StreamCipher
