import Drew.Block.Des.Model

/-!
# Triple DES is three times DES

Between the parts the permutations and the exchanges of the halves that DES makes are left out. Three DES
contexts in turn compute the same function.
-/

namespace Drew

open Drew.Memory Drew.StreamCipher Drew.Block

namespace Des

section Blocks

variable {g h : Halves → Halves} {block : List UInt8}

theorem length_onBlock : (onBlock g block).length = 8 := by
  rw [onBlock, length_onWords]
  rfl

theorem onBlock_onBlock : onBlock h (onBlock g block) = onBlock (fun x => h (g x)) block := by
  unfold onBlock onWords
  rw [copyIn_copyOut]
  rfl

theorem onBlock_of_id (hg : ∀ x, g x = x) (hlen : block.length = 8) : onBlock g block = block := by
  have hid : (fun v : Vector UInt32 2 =>
      let r := g (v.get 0, v.get 1)
      #v[r.1, r.2]) = fun v => v := by
    funext v
    apply Vector.ext
    intro i hi
    simp only [hg]
    match i, hi with
    | 0, _ => rfl
    | 1, _ => rfl
  rw [onBlock, hid, onWords]
  exact copyOut_copyIn hlen

end Blocks

/-- The array for decryption is that for encryption, reversed. -/
def Keyed (d : Des) : Prop := d.kd = decryptKeys d.k

/-- The context behind a key. -/
def keyed (key : List UInt8) : Des := ⟨encryptKeys key, decryptKeys (encryptKeys key)⟩

theorem keyed_keyed (key : List UInt8) : (keyed key).Keyed := rfl

theorem setKeyInternal_eq (d : Des) {key : List UInt8} (h : key.length = 8) :
    d.setKeyInternal key = some (keyed key) := by
  rw [setKeyInternal, if_neg (by omega)]
  rfl

variable (s : Boxes) {d : Des} (x : Halves)

theorem decryptHalves_encryptHalves (hd : d.Keyed) : d.decryptHalves s (d.encryptHalves s x) = x := by
  rw [decryptHalves, encryptHalves, iperm_swap_fperm, hd, processBlock_decryptKeys, fperm_swap_iperm, Prod.swap_swap]

theorem encryptHalves_decryptHalves (hd : d.Keyed) : d.encryptHalves s (d.decryptHalves s x) = x :=
  undo_both (fun y => decryptHalves_encryptHalves s y hd) x

end Des

namespace TripleDes

open Des

variable (s : Boxes) (t : TripleDes) (x : Halves)

theorem encryptHalves_eq : t.encryptHalves s x =
    t.des3.encryptHalves s (t.des2.decryptHalves s (t.des1.encryptHalves s x)) := by
  simp only [Des.encryptHalves, Des.decryptHalves, iperm_swap_fperm]
  rfl

theorem decryptHalves_eq : t.decryptHalves s x =
    t.des1.decryptHalves s (t.des2.encryptHalves s (t.des3.decryptHalves s x)) := by
  simp only [Des.encryptHalves, Des.decryptHalves, iperm_swap_fperm]
  rfl

/-- The context behind three keys. -/
def keyed (k1 k2 k3 : List UInt8) : TripleDes := ⟨Des.keyed k1, Des.keyed k2, Des.keyed k3⟩

theorem setKeyInternal_three {k1 k2 k3 : List UInt8} (h1 : k1.length = 8) (h2 : k2.length = 8) (h3 : k3.length = 8) :
    t.setKeyInternal (k1 ++ k2 ++ k3) = some (keyed k1 k2 k3) := by
  have hlen : (k1 ++ k2 ++ k3).length = 24 := by
    rw [List.length_append, List.length_append, h1, h2, h3]
  have htwo : (k1 ++ k2).length = 16 := by
    rw [List.length_append, h1, h2]
  have hfirst : (k1 ++ k2 ++ k3).take 8 = k1 := by
    rw [List.append_assoc, List.take_left' h1]
  have hsecond : ((k1 ++ k2 ++ k3).drop 8).take 8 = k2 := by
    rw [List.append_assoc, List.drop_left' h1, List.take_left' h2]
  have hthird : ((k1 ++ k2 ++ k3).drop 16).take 8 = k3 := by
    rw [List.drop_left' htwo, List.take_of_length_le h3.le]
  rw [setKeyInternal, if_pos hlen, hfirst, hsecond, hthird, setKeyInternal_eq _ h1, setKeyInternal_eq _ h2,
    setKeyInternal_eq _ h3]
  rfl

theorem setKeyInternal_two {k1 k2 : List UInt8} (h1 : k1.length = 8) (h2 : k2.length = 8) :
    t.setKeyInternal (k1 ++ k2) = some (keyed k1 k2 k1) := by
  have hlen : (k1 ++ k2).length ≠ 24 := by
    rw [List.length_append, h1, h2]
    decide
  have hfirst : (k1 ++ k2).take 8 = k1 := List.take_left' h1
  have hsecond : ((k1 ++ k2).drop 8).take 8 = k2 := by
    rw [List.drop_left' h1, List.take_of_length_le h2.le]
  rw [setKeyInternal, if_neg hlen, List.drop_zero, hfirst, hsecond, setKeyInternal_eq _ h1, setKeyInternal_eq _ h2,
    setKeyInternal_eq _ h1]
  rfl

/-- Decryption inverts encryption for contexts that have keys. -/
theorem decrypt_encrypt_keyed (k1 k2 k3 : List UInt8) {b : List UInt8} (hb : b.length = 8) :
    (keyed k1 k2 k3).decrypt s ((keyed k1 k2 k3).encrypt s b) = b := by
  rw [decrypt, encrypt, onBlock_onBlock]
  apply onBlock_of_id _ hb
  intro x
  rw [encryptHalves_eq, decryptHalves_eq]
  show (Des.keyed k1).decryptHalves s ((Des.keyed k2).encryptHalves s ((Des.keyed k3).decryptHalves s
    ((Des.keyed k3).encryptHalves s ((Des.keyed k2).decryptHalves s ((Des.keyed k1).encryptHalves s x))))) = x
  rw [decryptHalves_encryptHalves s _ (keyed_keyed k3), encryptHalves_decryptHalves s _ (keyed_keyed k2), decryptHalves_encryptHalves s _ (keyed_keyed k1)]

/-- The function of Triple DES is that of three DES contexts. -/
theorem encrypt_keyed (k1 k2 k3 b : List UInt8) : (keyed k1 k2 k3).encrypt s b =
    (Des.keyed k3).encrypt s ((Des.keyed k2).decrypt s ((Des.keyed k1).encrypt s b)) := by
  have hhalves : (keyed k1 k2 k3).encryptHalves s = fun x => (Des.keyed k3).encryptHalves s
      ((Des.keyed k2).decryptHalves s ((Des.keyed k1).encryptHalves s x)) := funext fun x => encryptHalves_eq s _ x
  rw [encrypt, hhalves, Des.encrypt, Des.encrypt, Des.decrypt, onBlock_onBlock, onBlock_onBlock]

/-- Triple DES is DES, the inverse of DES and DES, with the parts of the key in order. -/
theorem triple_is_composed (s : Boxes) :
    (∀ (c : TripleDes) (d : Des) (k1 k2 k3 : List UInt8), k1.length = 8 → k2.length = 8 → k3.length = 8 →
      ∃ t d1 d2 d3, c.setKeyInternal (k1 ++ k2 ++ k3) = some t ∧ d.setKeyInternal k1 = some d1 ∧
        d.setKeyInternal k2 = some d2 ∧ d.setKeyInternal k3 = some d3 ∧
        ∀ b : List UInt8, t.encrypt s b = d3.encrypt s (d2.decrypt s (d1.encrypt s b)) ∧
          (b.length = 8 → t.decrypt s (t.encrypt s b) = b)) ∧
    (∀ (c : TripleDes) (d : Des) (k : List UInt8), k.length = 8 →
      ∃ t d1, c.setKeyInternal (k ++ k ++ k) = some t ∧ d.setKeyInternal k = some d1 ∧
        ∀ b : List UInt8, b.length = 8 → t.encrypt s b = d1.encrypt s b) ∧
    (∀ (c c' : TripleDes) (k1 k2 : List UInt8), k1.length = 8 → k2.length = 8 →
      ∃ t t', c.setKeyInternal (k1 ++ k2) = some t ∧ c'.setKeyInternal (k1 ++ k2 ++ k1) = some t' ∧
        ∀ b : List UInt8, t.encrypt s b = t'.encrypt s b ∧ t.decrypt s b = t'.decrypt s b ∧
          (b.length = 8 → t.decrypt s (t.encrypt s b) = b)) ∧
    ∀ (d : Des) (k : List UInt8), k.length = 8 → ∃ d1, d.setKeyInternal k = some d1 ∧
      ∀ b : List UInt8, b.length = 8 → (d1.encrypt s b).length = 8 ∧ d1.decrypt s (d1.encrypt s b) = b := by
  have hdes : ∀ (k b : List UInt8), b.length = 8 →
      (Des.keyed k).decrypt s ((Des.keyed k).encrypt s b) = b := by
    intro k b hb
    rw [Des.decrypt, Des.encrypt, onBlock_onBlock]
    exact onBlock_of_id (fun x => decryptHalves_encryptHalves s x (keyed_keyed k)) hb
  refine ⟨?_, ?_, ?_, ?_⟩
  · intro c d k1 k2 k3 h1 h2 h3
    refine ⟨_, _, _, _, setKeyInternal_three c h1 h2 h3, setKeyInternal_eq d h1, setKeyInternal_eq d h2,
      setKeyInternal_eq d h3, fun b => ⟨encrypt_keyed s k1 k2 k3 b, fun hb => ?_⟩⟩
    exact decrypt_encrypt_keyed s k1 k2 k3 hb
  · intro c d k h
    refine ⟨_, _, setKeyInternal_three c h h h, setKeyInternal_eq d h, fun b hb => ?_⟩
    rw [encrypt_keyed, hdes k b hb]
  · intro c c' k1 k2 h1 h2
    refine ⟨_, _, setKeyInternal_two c h1 h2, setKeyInternal_three c' h1 h2 h1, fun b => ⟨rfl, rfl, fun hb => ?_⟩⟩
    exact decrypt_encrypt_keyed s k1 k2 k1 hb
  · intro d k h
    exact ⟨_, setKeyInternal_eq d h, fun b hb => ⟨length_onBlock, hdes k b hb⟩⟩

theorem triple_is_composed_zero (s : Boxes) :
    ∃ d1, Des.setKeyInternal ⟨.replicate 32 0, .replicate 32 0⟩ (List.replicate 8 0) = some d1 ∧
      ∀ b : List UInt8, b.length = 8 → (d1.encrypt s b).length = 8 ∧ d1.decrypt s (d1.encrypt s b) = b :=
  (triple_is_composed s).2.2.2 _ _ List.length_replicate

end TripleDes

end Drew
