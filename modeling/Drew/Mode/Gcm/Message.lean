import Drew.Mode.Gcm.Tag

/-!
# Messages in GCM

A message is encrypted in a new context: a cipher, an initialisation vector, additional
data, any number of calls of `gcm_encrypt`, and one of `gcm_encryptfinal`. What is written is
the specified ciphertext and tag for all messages with the same lengths of tag and additional
data if and only if the tag has at most 16 bytes, and additional data is empty or does not end
with a whole block (or there is no tag at all).
-/

namespace Drew.Mode.Gcm

open Drew.Memory Drew.Block Drew.Field Drew.Stream

/-! ## Contexts -/

/-- The three plugins. -/
inductive Plugin where
  | gcm
  | gcmfl (order : ByteOrder) (memory : Table)
  | gcmPclmulqdq

def Plugin.init : Plugin → List (String × Nat) → Gcm
  | .gcm, params => gcmInit params
  | .gcmfl order memory, params => gcmflInit order memory params
  | .gcmPclmulqdq, params => gcmPclmulqdqInit params

/-- A new context with a cipher and a vector. -/
def start (p : Plugin) (params : List (String × Nat)) (E : BlockCipher) (iv : List UInt8) :
    Option (Gcm × Int) :=
  ((p.init params).setblock (some E)).1.setiv iv

section Start

variable {p : Plugin} {params : List (String × Nat)} {E : BlockCipher} {iv aad : List UInt8}

theorem equipped_init (p : Plugin) (params : List (String × Nat)) : Equipped (p.init params) := by
  intro order horder
  cases p with
  | gcm => cases horder
  | gcmPclmulqdq => cases horder
  | gcmfl order' memory => exact ⟨memory, rfl⟩

theorem taglen_init (p : Plugin) (params : List (String × Nat)) :
    (p.init params).taglen = tagLength params := by
  cases p <;> rfl

theorem boff_init (p : Plugin) (params : List (String × Nat)) : (p.init params).boff = 0 := by
  cases p <;> rfl

/-- The vector is accepted if its length and that of the tag allow it. -/
theorem start_spec (p : Plugin) (hE : E.blksize = 16) (haccept : Accepts (tagLength params) iv) :
    ∃ c, start p params E iv = some (c, 0) ∧ Started E iv (p.init params) c := by
  obtain ⟨c, hset, hstarted⟩ := setiv_spec (c := ((p.init params).setblock (some E)).1)
    (equipped_init p params) rfl hE hE (by rw [← taglen_init p] at haccept; exact haccept)
  exact ⟨c, hset, ⟨hstarted.keyed, hstarted.y0, hstarted.y, hstarted.x, hstarted.iv, hstarted.alen,
    hstarted.clen, hstarted.boff, hstarted.taglen⟩⟩

theorem start_refused (p : Plugin) (hE : E.blksize = 16)
    (hrefuse : ¬Accepts (tagLength params) iv) :
    ∃ c, start p params E iv = some (c, -drewErrInvalid) := by
  rw [← taglen_init p] at hrefuse
  exact setiv_refused (c := ((p.init params).setblock (some E)).1) (equipped_init p params) rfl hE hE
    hrefuse

/-- The context in which a message is begun: the additional data is hashed. -/
structure Begun (E : BlockCipher) (iv aad : List UInt8) (taglen : Nat) (c : Gcm) : Prop where
  keyed : Keyed E c
  y0 : c.y0.toList = initialCounter E iv
  y : c.y.toList = initialCounter E iv
  x : ofBytes c.x.toList = ghash (hashKey E) 0#128 (dataBlocks aad)
  alen : c.alen = aad.length
  clen : c.clen = 0
  boff : c.boff = 0
  taglen : c.taglen = taglen

theorem begin_spec (p : Plugin) (hE : E.blksize = 16) (haccept : Accepts (tagLength params) iv)
    (aad : List UInt8) :
    ∃ c₀ c₁, start p params E iv = some (c₀, 0) ∧ c₀.setdata aad = some (c₁, 0) ∧
      Begun E iv aad (tagLength params) c₁ := by
  obtain ⟨c₀, hstart, h⟩ := start_spec p hE haccept
  obtain ⟨x, buf, hdata, hx⟩ := setdata_spec h.keyed aad
  refine ⟨c₀, _, hstart, hdata, ?_⟩
  exact ⟨⟨h.keyed.algo, h.keyed.blksize, hE, h.keyed.multiplies⟩, h.y0, h.y, hx, rfl, h.clen,
    h.boff.trans (boff_init p params), h.taglen.trans (taglen_init p params)⟩

theorem Begun.after {c : Gcm} {taglen : Nat} (h : Begun E iv aad taglen c) : After E c c [] :=
  after_nil h.boff (by rw [h.clen]; norm_num)

/-- Masking the whole message. -/
theorem Begun.cipher {c : Gcm} {taglen : Nat} (h : Begun E iv aad taglen c) (xs : List UInt8) :
    (trace (sealGcm E c) [] xs).2 = gctr E (initialCounter E iv) xs := by
  have hlen := length_keyBlock h.keyed.size (length_initialCounter E iv)
  rw [sealGcm, h.y, seal_blocks hlen (m := (xs.length + 15) / 16) (by omega)]
  rfl

theorem Begun.cipher_append {c : Gcm} {taglen : Nat} (h : Begun E iv aad taglen c)
    (xs ys : List UInt8) :
    (trace (sealGcm E c) [] xs).2 ++ (trace (sealGcm E c) (trace (sealGcm E c) [] xs).2 ys).2 =
      gctr E (initialCounter E iv) (xs ++ ys) := by
  have happ := congrArg Prod.snd (trace_append (sealGcm E c) [] xs ys)
  rw [trace_seal_history [] xs, List.nil_append, h.cipher] at happ
  exact happ.symm

/-- The tag that is made. -/
theorem Begun.tagFrom_eq {c : Gcm} {taglen : Nat} (h : Begun E iv aad taglen c) (C : List UInt8) :
    tagFrom E c C = xorBytes (toBytes (ghash (hashKey E) 0#128
      (dataBlocks aad ++ padBlocks C ++ [ofBytes (lengthBlock aad.length C.length)])))
        (E.encrypt (initialCounter E iv)) := by
  rw [tagFrom, h.x, h.y0, h.alen, h.clen, Nat.zero_add, ← ghash_append, List.append_assoc]

end Start

/-! ## Encryption -/

section Encryption

variable {params : List (String × Nat)} {E : BlockCipher} {iv aad : List UInt8}

/-- Encrypt a message in a new context. Gives what is written, and the value of the last call. -/
def encryptMessage (p : Plugin) (params : List (String × Nat)) (E : BlockCipher)
    (iv aad : List UInt8) (pieces : List (List UInt8)) (last : List UInt8) (outlen : Nat) :
    Option (List UInt8 × Int) := do
  let (c, res) ← start p params E iv
  guard (res = 0)
  let (c, res) ← c.setdata aad
  guard (res = 0)
  let (c, outs) ← run encrypt c pieces
  let (_, out, res) ← c.encryptfinal outlen last
  return (outs.flatten ++ out, res)

/-- The ciphertext is the specified one, and the tag is made in a context `c` where the additional
data is hashed. More than 16 bytes of tag are read past its end. -/
theorem encryptMessage_spec (p : Plugin) (hE : E.blksize = 16)
    (haccept : Accepts (tagLength params) iv) (aad : List UInt8) (pieces : List (List UInt8))
    (last : List UInt8) {outlen : Nat} (hout : last.length + tagLength params ≤ outlen) :
    ∃ c, Begun E iv aad (tagLength params) c ∧
      encryptMessage p params E iv aad pieces last outlen =
        if tagLength params ≤ 16 then
          some (gctr E (initialCounter E iv) (pieces.flatten ++ last) ++
            (tagFrom E c (gctr E (initialCounter E iv) (pieces.flatten ++ last))).take
              (tagLength params), sizeToInt outlen)
        else none := by
  obtain ⟨c₀, c₁, hstart, hdata, hbegun⟩ := begin_spec p hE haccept aad
  obtain ⟨c₂, outs, hrun, hflat, hafter⟩ :=
    run_calls (encrypt_refines hbegun.keyed) hbegun.after pieces
  rw [trace_seal_history, List.nil_append] at hafter
  have hspace : last.length + c₁.taglen ≤ outlen := by rwa [hbegun.taglen]
  obtain ⟨c₃, hfinal⟩ := encryptfinal_spec hbegun.keyed hafter last hspace
  rw [hbegun.cipher_append, hbegun.taglen] at hfinal
  refine ⟨c₁, hbegun, ?_⟩
  simp only [encryptMessage, hstart, hdata, hrun, hfinal, guard, if_true, Option.bind_eq_bind,
    Option.bind_some, pure]
  split
  · rw [Option.bind_some, hflat, ← List.append_assoc, hbegun.cipher_append]
  · rfl

/-- Nothing is encrypted if the vector is not accepted. -/
theorem encryptMessage_refused (p : Plugin) (hE : E.blksize = 16)
    (hrefuse : ¬Accepts (tagLength params) iv) (aad : List UInt8) (pieces : List (List UInt8))
    (last : List UInt8) (outlen : Nat) :
    encryptMessage p params E iv aad pieces last outlen = none := by
  obtain ⟨c, hstart⟩ := start_refused p hE hrefuse
  have herror : ¬-drewErrInvalid = 0 := by decide
  simp [encryptMessage, hstart, guard, herror]

/-- If a message is encrypted then the vector is accepted and the tag has at most 16 bytes. -/
theorem encryptMessage_some {p : Plugin} {pieces : List (List UInt8)} {last : List UInt8}
    {outlen : Nat} {r : List UInt8 × Int} (hE : E.blksize = 16)
    (hout : last.length + tagLength params ≤ outlen)
    (h : encryptMessage p params E iv aad pieces last outlen = some r) :
    Accepts (tagLength params) iv ∧ tagLength params ≤ 16 := by
  have haccept : Accepts (tagLength params) iv := by
    by_contra hrefuse
    rw [encryptMessage_refused p hE hrefuse] at h
    cases h
  refine ⟨haccept, ?_⟩
  by_contra hlong
  obtain ⟨c, -, hall⟩ := encryptMessage_spec p hE haccept aad pieces last hout
  rw [if_neg hlong, h] at hall
  cases hall

/-- The message is encrypted as specified, ciphertext and tag. -/
def MeetsSpec (p : Plugin) (params : List (String × Nat)) (E : BlockCipher) (iv aad : List UInt8)
    (pieces : List (List UInt8)) (last : List UInt8) (outlen : Nat) : Prop :=
  ∃ res, encryptMessage p params E iv aad pieces last outlen =
    some (gctr E (initialCounter E iv) (pieces.flatten ++ last) ++
      (tagBlock E (initialCounter E iv) aad
        (gctr E (initialCounter E iv) (pieces.flatten ++ last))).take (tagLength params), res)

/-- The condition is enough. -/
theorem meetsSpec_of (p : Plugin) (hE : E.blksize = 16) (haccept : Accepts (tagLength params) iv)
    (htag : tagLength params ≤ 16)
    (haad : tagLength params = 0 ∨ aad.length = 0 ∨ aad.length % 16 ≠ 0)
    (pieces : List (List UInt8)) (last : List UInt8) {outlen : Nat}
    (hout : last.length + tagLength params ≤ outlen) :
    MeetsSpec p params E iv aad pieces last outlen := by
  obtain ⟨c, hbegun, hall⟩ := encryptMessage_spec p hE haccept aad pieces last hout
  rw [if_pos htag] at hall
  refine ⟨sizeToInt outlen, hall.trans ?_⟩
  rcases haad with h0 | haad
  · rw [h0, List.take_zero, List.take_zero]
  · rw [hbegun.tagFrom_eq, tagBlock, authHash, ghash_append, ghash_append, ghash_dataBlocks _ haad,
      ghash_append, ghash_append]

end Encryption

/-! ## Additional data that ends with a whole block -/

section WholeBlock

/-- The cipher that adds a constant to a block. -/
def addConstant : BlockCipher where
  blksize := 16
  encrypt b := xorBytes b (0x40 :: List.replicate 15 0)
  decrypt b := xorBytes b (0x40 :: List.replicate 15 0)
  blksize_pos := pos_16
  length_encrypt b hb := by simp [hb]
  length_decrypt b hb := by simp [hb]

/-- Zero blocks, and one with a single bit. -/
def oneBit (m : Nat) : List UInt8 := List.replicate (16 * m) 0 ++ 0x80 :: List.replicate 15 0

theorem ghash_zeros (H : BitVec 128) (m : Nat) :
    ghash H 0#128 (toBlocks m (List.replicate (16 * m) 0)) = 0#128 := by
  induction m with
  | zero => rfl
  | succ m ih =>
    have hzero : ofBytes (padBlock ((List.replicate (16 * (m + 1)) 0).take 16)) = 0#128 := by
      rw [List.take_replicate, show min 16 (16 * (m + 1)) = 16 by omega]
      rfl
    rw [toBlocks, hzero, List.drop_replicate, show 16 * (m + 1) - 16 = 16 * m by omega, ghash,
      List.foldl_cons, BitVec.xor_zero, product_zero]
    exact ih

theorem ghash_oneBit (H : BitVec 128) (m : Nat) :
    ghash H 0#128 (padBlocks (oneBit m)) = product (BitVec.twoPow 128 127) H := by
  have hbit : ofBytes (padBlock (0x80 :: List.replicate 15 0)) = BitVec.twoPow 128 127 := rfl
  have hblocks : padBlocks (oneBit m) =
      toBlocks m (List.replicate (16 * m) 0) ++ [BitVec.twoPow 128 127] := by
    rw [padBlocks, oneBit, List.length_append, List.length_replicate, List.length_cons,
      List.length_replicate, show (16 * m + (15 + 1) + 15) / 16 = m + 1 by omega,
      toBlocks_snoc (by simp) (by simp), hbit]
  rw [hblocks, ghash_append, ghash_zeros, ghash_singleton, BitVec.zero_xor]

theorem length_oneBit (m : Nat) : (oneBit m).length = 16 * (m + 1) := by
  simp [oneBit]
  omega

/-- Blocks that are masked alike have the first byte in common if the results do. -/
theorem getMsbD_eq_of_take {as bs mask : List UInt8} (ha : as.length = 16) (hb : bs.length = 16)
    (hmask : mask.length = 16) {n : Nat} (hn : 0 < n)
    (h : (xorBytes as mask).take n = (xorBytes bs mask).take n) {i : Nat} (hi : i < 8) :
    (ofBytes as).getMsbD i = (ofBytes bs).getMsbD i := by
  have h0 : i / 8 = 0 := Nat.div_eq_of_lt hi
  obtain ⟨n, rfl⟩ : ∃ k, n = k + 1 := ⟨n - 1, by omega⟩
  rw [getMsbD_ofBytes ha i (by omega), getMsbD_ofBytes hb i (by omega)]
  cases as with
  | nil => simp at ha
  | cons x as =>
    cases bs with
    | nil => simp at hb
    | cons y bs =>
      cases mask with
      | nil => simp at hmask
      | cons z mask =>
        simp only [xorBytes, List.zipWith_cons_cons, List.take_succ_cons, List.cons.injEq] at h
        have hxy := xor_byte_inj h.1
        simp only [h0, List.getElem_cons_zero, hxy]

/-- The two tags differ in their first byte. -/
theorem tags_differ {c : Gcm} {iv : List UInt8} {taglen m n : Nat}
    (h : Begun addConstant iv (oneBit m) taglen c) (hn : 0 < n) :
    (tagFrom addConstant c []).take n ≠
      (tagBlock addConstant (initialCounter addConstant iv) (oneBit m) []).take n := by
  intro heq
  have hmask : (addConstant.encrypt (initialCounter addConstant iv)).length = 16 :=
    addConstant.length_encrypt _ (length_initialCounter _ _)
  have hdata : dataBlocks (oneBit m) = padBlocks (oneBit m) ++ [0#128] := by
    rw [dataBlocks_eq, length_oneBit, if_pos (by omega)]
  rw [h.tagFrom_eq, tagBlock, authHash, hdata] at heq
  have hbit := getMsbD_eq_of_take (length_toBytes _) (length_toBytes _) hmask hn heq (i := 2) (by omega)
  -- The contribution of the length block is the same, that of the data is not.
  have hempty : ∀ H x, ghash H x (padBlocks []) = x := fun _ _ => rfl
  rw [ofBytes_toBytes, ofBytes_toBytes, ghash_append, ghash_append, ghash_append, ghash_append,
    ghash_append, hempty, hempty, ghash_oneBit, ghash_singleton, ghash_singleton, ghash_singleton,
    product_xor, product_xor (product _ _) (ofBytes _), BitVec.getMsbD_xor, BitVec.getMsbD_xor,
    Bool.xor_left_inj, BitVec.xor_zero] at hbit
  revert hbit
  decide +kernel

/-- With such additional data the tag is another one. -/
theorem not_meetsSpec_oneBit {params : List (String × Nat)} {iv : List UInt8} (p : Plugin)
    (haccept : Accepts (tagLength params) iv) (htag : tagLength params ≤ 16)
    (hpos : 0 < tagLength params) (m : Nat) {outlen : Nat} (hout : tagLength params ≤ outlen) :
    ¬MeetsSpec p params addConstant iv (oneBit m) [] [] outlen := by
  intro hmeets
  obtain ⟨res, hall⟩ := hmeets
  obtain ⟨c, hbegun, hall'⟩ := encryptMessage_spec (E := addConstant) p rfl haccept (oneBit m) [] []
    (by simpa using hout)
  have hnil : gctr addConstant (initialCounter addConstant iv) (List.flatten [] ++ []) = [] := rfl
  rw [if_pos htag, hall, hnil, Option.some_inj, Prod.mk_inj, List.nil_append, List.nil_append] at hall'
  exact tags_differ hbegun hpos hall'.1.symm

theorem gcm_empty_message_oneBit :
    ¬MeetsSpec .gcm [] addConstant (List.replicate 12 0) (oneBit 0) [] [] 16 :=
  not_meetsSpec_oneBit .gcm (Or.inl rfl) (by decide) (by decide) 0 (by decide)

end WholeBlock

/-! ## The condition -/

/-- Every message with the given lengths of tag, vector and additional data is encrypted as
specified if and only if the vector is accepted, the tag fits in `x` and no zero block is hashed
after the additional data. -/
theorem gcm_nist_iff (taglen ivlen aadlen : Nat) :
    (∀ p params E iv aad pieces last outlen, E.blksize = 16 → tagLength params = taglen →
        iv.length = ivlen → aad.length = aadlen → last.length + taglen ≤ outlen →
        MeetsSpec p params E iv aad pieces last outlen) ↔
      (ivlen = 12 ∨ taglen = 16) ∧ taglen ≤ 16 ∧
        (taglen = 0 ∨ aadlen = 0 ∨ aadlen % 16 ≠ 0) := by
  constructor
  · intro hall
    have hiv : (List.replicate ivlen (0 : UInt8)).length = ivlen := by simp
    have hmeets : ∀ aad : List UInt8, aad.length = aadlen → MeetsSpec .gcm [("tagLength", taglen)]
        addConstant (List.replicate ivlen 0) aad [] [] taglen :=
      fun aad haad => hall .gcm _ addConstant _ aad [] [] taglen rfl rfl hiv haad (by simp)
    have hzeros := hmeets (List.replicate aadlen 0) (by simp)
    obtain ⟨res, hsome⟩ := hzeros
    obtain ⟨haccept, htag⟩ := encryptMessage_some rfl (by simp [tagLength]) hsome
    have hparams : tagLength [("tagLength", taglen)] = taglen := rfl
    refine ⟨by rwa [Accepts, hiv, hparams] at haccept, htag, ?_⟩
    by_contra hno
    obtain ⟨m, hm⟩ : ∃ m, aadlen = 16 * (m + 1) := ⟨aadlen / 16 - 1, by omega⟩
    exact not_meetsSpec_oneBit .gcm haccept htag (show 0 < taglen by omega) m le_rfl
      (hmeets (oneBit m) (by rw [length_oneBit, hm]))
  · intro hcond p params E iv aad pieces last outlen hE htag hiv haad hout
    obtain ⟨haccept, hlong, hdata⟩ := hcond
    subst htag
    subst haad
    subst hiv
    exact meetsSpec_of p hE haccept hlong hdata pieces last hout

end Drew.Mode.Gcm
