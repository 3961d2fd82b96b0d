import Drew.Block.Rounds
import Drew.Block.Camellia.Model

/-!
# Decryption with Camellia

Both key sizes are one network: whitening, a sequence of Feistel rounds with layers of `fl` and
`flinv` among them, an exchange of the words, whitening. `Decrypt` is the network of the opposite
sequence with the whitening keys exchanged, and a network is inverted by its opposite.
-/

namespace Drew.Camellia

open Drew.Memory Drew.Block

/-! ## The network -/

inductive Layer
  | round (k : UInt64)
  | fl (k k' : UInt64)

/-- A round exchanges the words. -/
def Layer.apply (s : Tables) (d : Pair) : Layer → Pair
  | round k => (d.2 ^^^ f s d.1 k, d.1)
  | fl k k' => (Camellia.fl d.1 k, flinv d.2 k')

/-- The key of a round. -/
def Layer.roundKey? : Layer → Option UInt64
  | round k => some k
  | fl _ _ => none

/-- The layer as it stands in the opposite sequence. -/
def Layer.opposite : Layer → Layer
  | round k => round k
  | fl k k' => fl k' k

def opposite (ls : List Layer) : List Layer := (ls.map Layer.opposite).reverse

def network (s : Tables) (pre : Pair) (ls : List Layer) (post : Pair) (d : Pair) : Pair :=
  xorPair (ls.foldl (Layer.apply s) (xorPair d pre)).swap post

/-- Six rounds, from a round key on. -/
def sixRounds (c : Camellia) (n : Nat) : List Layer :=
  (List.range 6).map fun i => .round (c.roundKey (n + i))

/-- The sequence of a key: three groups of six rounds, or four. -/
def sequence (c : Camellia) : Variant → List Layer
  | .short =>
      sixRounds c 0 ++ .fl (c.kl.get 0) (c.kl.get 1) :: sixRounds c 6 ++
        .fl (c.kl.get 2) (c.kl.get 3) :: sixRounds c 12
  | .long =>
      sixRounds c 0 ++ .fl (c.kl.get 0) (c.kl.get 1) :: sixRounds c 6 ++
        .fl (c.kl.get 2) (c.kl.get 3) :: sixRounds c 12 ++
        .fl (c.kl.get 4) (c.kl.get 5) :: sixRounds c 18

/-! ## One layer -/

theorem toNat_join (a b : UInt32) :
    (a.toUInt64 <<< 32 ||| b.toUInt64).toNat = a.toNat * 2 ^ 32 + b.toNat := by
  have ha := a.toNat_lt
  have hb := b.toNat_lt
  have hshift : (a.toUInt64 <<< 32).toNat = a.toNat <<< 32 := by
    rw [UInt64.toNat_shiftLeft, UInt32.toNat_toUInt64]
    apply Nat.mod_eq_of_lt
    rw [show (32 : UInt64).toNat % 64 = 32 from rfl, Nat.shiftLeft_eq]
    omega
  rw [UInt64.toNat_or, hshift, UInt32.toNat_toUInt64, ← Nat.shiftLeft_add_eq_or_of_lt hb,
    Nat.shiftLeft_eq]

theorem toNat_high (x : UInt64) : (x >>> 32).toUInt32.toNat = x.toNat / 2 ^ 32 := by
  have hx := x.toNat_lt
  rw [UInt64.toNat_toUInt32, UInt64.toNat_shiftRight, show (32 : UInt64).toNat % 64 = 32 from rfl,
    Nat.shiftRight_eq_div_pow]
  omega

theorem high_join (a b : UInt32) : ((a.toUInt64 <<< 32 ||| b.toUInt64) >>> 32).toUInt32 = a := by
  have hb := b.toNat_lt
  apply UInt32.toNat_inj.mp
  rw [toNat_high, toNat_join]
  omega

theorem low_join (a b : UInt32) : (a.toUInt64 <<< 32 ||| b.toUInt64).toUInt32 = b := by
  have hb := b.toNat_lt
  apply UInt32.toNat_inj.mp
  rw [UInt64.toNat_toUInt32, toNat_join]
  omega

theorem join_halves (x : UInt64) :
    (x >>> 32).toUInt32.toUInt64 <<< 32 ||| x.toUInt32.toUInt64 = x := by
  apply UInt64.toNat_inj.mp
  rw [toNat_join, toNat_high, UInt64.toNat_toUInt32]
  omega

/-- Each half is combined with a function of the other, first one and then the other. -/
theorem flinv_fl (x k : UInt64) : flinv (fl x k) k = x := by
  simp only [flinv, fl, high_join, low_join, xor32_cancel_left]
  exact join_halves x

theorem fl_flinv (x k : UInt64) : fl (flinv x k) k = x := by
  simp only [flinv, fl, high_join, low_join, xor32_cancel_left]
  exact join_halves x

/-- The opposite layer, with the words exchanged before and after it. -/
theorem opposite_apply (s : Tables) (d : Pair) (l : Layer) :
    ((l.opposite.apply s (l.apply s d).swap)).swap = d := by
  cases l with
  | round k =>
    simp only [Layer.opposite, Layer.apply, Prod.swap, xor64_cancel_right]
  | fl k k' =>
    simp only [Layer.opposite, Layer.apply, Prod.swap, flinv_fl, fl_flinv]

/-! ## The whole network -/

theorem xorPair_xorPair (d k : Pair) : xorPair (xorPair d k) k = d := by
  simp only [xorPair, xor64_cancel_right]

/-- The opposite sequence between two exchanges undoes a sequence. -/
theorem opposite_foldl (s : Tables) (ls : List Layer) (d : Pair) :
    ((opposite ls).foldl (Layer.apply s) (ls.foldl (Layer.apply s) d).swap).swap = d := by
  have hundo : ∀ (x : Pair) (l : Layer), (l.opposite.apply s (l.apply s x).swap).swap = x :=
    opposite_apply s
  have hfold := foldl_reverse_undo
    (f := Layer.apply s) (g := fun x l => (l.opposite.apply s x.swap).swap) hundo ls d
  have hview := foldl_conj (p := Prod.swap) (f := fun (x : Pair) l => (l.opposite.apply s x.swap).swap)
    (g := fun x (l : Layer) => l.opposite.apply s x) (fun x l => Prod.swap_swap _) ls.reverse
    (ls.foldl (Layer.apply s) d)
  rw [hfold] at hview
  rw [opposite, ← List.map_reverse, List.foldl_map, ← hview, Prod.swap_swap]

theorem network_opposite (s : Tables) (pre post : Pair) (ls : List Layer) (d : Pair) :
    network s post (opposite ls) pre (network s pre ls post d) = d := by
  rw [network, network, xorPair_xorPair, opposite_foldl, xorPair_xorPair]

theorem foldl_sixRounds (s : Tables) (c : Camellia) (n : Nat) (d : Pair) :
    (sixRounds c n).foldl (Layer.apply s) d =
      encryptPair s c (encryptPair s c (encryptPair s c d n) (n + 2)) (n + 4) := rfl

theorem foldl_opposite_sixRounds (s : Tables) (c : Camellia) (n : Nat) (d : Pair) :
    (opposite (sixRounds c n)).foldl (Layer.apply s) d =
      decryptPair s c (decryptPair s c (decryptPair s c d (n + 4)) (n + 2)) n := rfl

theorem opposite_append (ls ms : List Layer) : opposite (ls ++ ms) = opposite ms ++ opposite ls := by
  rw [opposite, List.map_append, List.reverse_append]
  rfl

theorem opposite_cons (l : Layer) (ls : List Layer) :
    opposite (l :: ls) = opposite ls ++ [l.opposite] := by
  rw [opposite, List.map_cons, List.reverse_cons]
  rfl

/-- Encryption runs the sequence of the key between its whitening keys. -/
theorem encryptWith_eq_network (s : Tables) (c : Camellia) (v : Variant) (d : Pair) :
    encryptWith s c v d =
      network s (c.kw.get 0, c.kw.get 1) (sequence c v) (c.kw.get 2, c.kw.get 3) d := by
  cases v with
  | short =>
    simp only [network, sequence, List.foldl_append, List.foldl_cons, foldl_sixRounds]
    rfl
  | long =>
    simp only [network, sequence, List.foldl_append, List.foldl_cons, foldl_sixRounds]
    rfl

/-- Decryption runs the opposite sequence, with the whitening keys exchanged. -/
theorem decryptWith_eq_network (s : Tables) (c : Camellia) (v : Variant) (d : Pair) :
    decryptWith s c v d =
      network s (c.kw.get 2, c.kw.get 3) (opposite (sequence c v)) (c.kw.get 0, c.kw.get 1) d := by
  cases v with
  | short =>
    simp only [network, sequence, opposite_append, opposite_cons, List.foldl_append, List.foldl_cons,
      List.foldl_nil, foldl_opposite_sixRounds]
    rfl
  | long =>
    simp only [network, sequence, opposite_append, opposite_cons, List.foldl_append, List.foldl_cons,
      List.foldl_nil, foldl_opposite_sixRounds]
    rfl

theorem decryptWith_encryptWith (s : Tables) (c : Camellia) (v : Variant) (d : Pair) :
    decryptWith s c v (encryptWith s c v d) = d := by
  rw [encryptWith_eq_network, decryptWith_eq_network, network_opposite]

/-! ## Blocks -/

theorem onBlock_onBlock {g h : Pair → Pair} (hinv : ∀ d, h (g d) = d) {block : List UInt8}
    (hlen : block.length = 16) : onBlock h (onBlock g block) = block := by
  apply onWords_onWords _ hlen
  intro v
  have hwords : h (g (v.get 0, v.get 1)) = (v.get 0, v.get 1) := hinv _
  apply Vector.ext
  intro i hi
  match i, hi with
  | 0, _ => exact congrArg Prod.fst hwords
  | 1, _ => exact congrArg Prod.snd hwords

/-- How many rounds a key of a length asks for. -/
def rounds (len : Nat) : Nat := if len = 16 then 18 else 24

/-- The variant that a key of a length selects. -/
def variant (len : Nat) : Variant := if len = 16 then .short else .long

theorem setKeyInternal_spec (s : Tables) (c : Camellia) {key : List UInt8}
    (hkey : key.length = 16 ∨ key.length = 24 ∨ key.length = 32) :
    ∃ c', setKeyInternal s c key = some c' ∧ c'.fenc = some (variant key.length) ∧
      c'.fdec = some (variant key.length) := by
  rcases hkey with h | h | h
  · have hv : variant key.length = .short := by rw [variant, if_pos h]
    exact ⟨_, by rw [setKeyInternal, if_pos h], by rw [hv]; rfl, by rw [hv]; rfl⟩
  · have hv : variant key.length = .long := by rw [variant, if_neg (by omega)]
    exact ⟨_, by rw [setKeyInternal, if_neg (by omega), if_pos h], by rw [hv]; rfl, by rw [hv]; rfl⟩
  · have hv : variant key.length = .long := by rw [variant, if_neg (by omega)]
    exact ⟨_, by rw [setKeyInternal, if_neg (by omega), if_neg (by omega), if_pos h], by rw [hv]; rfl,
      by rw [hv]; rfl⟩

/-- The sequence has the round keys in order. -/
theorem roundKeys_sequence (c : Camellia) (len : Nat) :
    (sequence c (variant len)).filterMap Layer.roundKey? = (List.range (rounds len)).map c.roundKey := by
  by_cases h : len = 16
  · rw [variant, rounds, if_pos h, if_pos h]
    rfl
  · rw [variant, rounds, if_neg h, if_neg h]
    rfl

/-- After a key, `Encrypt` is a network on the 18 or 24 round keys of that key, `Decrypt` is the network
of the opposite sequence with the whitening keys exchanged, and it gives every block back. -/
theorem camellia_inverts (s : Tables) (c : Camellia) {key : List UInt8}
    (hkey : key.length = 16 ∨ key.length = 24 ∨ key.length = 32) :
    (∀ x k, flinv (fl x k) k = x) ∧
    ∃ c' ls, setKeyInternal s c key = some c' ∧
      ls.filterMap Layer.roundKey? = (List.range (rounds key.length)).map c'.roundKey ∧
      ∀ b : List UInt8, b.length = 16 →
        encrypt s c' b =
          some (onBlock (network s (c'.kw.get 0, c'.kw.get 1) ls (c'.kw.get 2, c'.kw.get 3)) b) ∧
        decrypt s c' b =
          some (onBlock (network s (c'.kw.get 2, c'.kw.get 3) (opposite ls) (c'.kw.get 0, c'.kw.get 1)) b) ∧
        (encrypt s c' b).bind (decrypt s c') = some b := by
  refine ⟨flinv_fl, ?_⟩
  obtain ⟨c', hset, henc, hdec⟩ := setKeyInternal_spec s c hkey
  refine ⟨c', sequence c' (variant key.length), hset, roundKeys_sequence c' key.length, ?_⟩
  intro b hb
  have hrun : encrypt s c' b = some (onBlock (encryptWith s c' (variant key.length)) b) := by
    rw [encrypt, henc, Option.map_some]
  have hback : ∀ w, decrypt s c' w = some (onBlock (decryptWith s c' (variant key.length)) w) := by
    intro w
    rw [decrypt, hdec, Option.map_some]
  refine ⟨?_, ?_, ?_⟩
  · rw [hrun, funext (encryptWith_eq_network s c' (variant key.length))]
  · rw [hback, funext (decryptWith_eq_network s c' (variant key.length))]
  · rw [hrun, Option.bind_some, hback, onBlock_onBlock (decryptWith_encryptWith s c' _) hb]

theorem camellia_inverts_zero :
    (∀ x k, flinv (fl x k) k = x) ∧
    ∃ c' ls, setKeyInternal (fun _ b => b.toUInt64) ⟨.replicate 4 0, .replicate 24 0, .replicate 6 0, none, none⟩
        (List.replicate 16 0) = some c' ∧
      ls.filterMap Layer.roundKey? = (List.range (rounds 16)).map c'.roundKey ∧
      ∀ b : List UInt8, b.length = 16 →
        encrypt (fun _ b => b.toUInt64) c' b =
          some (onBlock (network (fun _ b => b.toUInt64) (c'.kw.get 0, c'.kw.get 1) ls
            (c'.kw.get 2, c'.kw.get 3)) b) ∧
        decrypt (fun _ b => b.toUInt64) c' b =
          some (onBlock (network (fun _ b => b.toUInt64) (c'.kw.get 2, c'.kw.get 3) (opposite ls)
            (c'.kw.get 0, c'.kw.get 1)) b) ∧
        (encrypt (fun _ b => b.toUInt64) c' b).bind (decrypt (fun _ b => b.toUInt64) c') = some b :=
  camellia_inverts (fun _ b => b.toUInt64) ⟨.replicate 4 0, .replicate 24 0, .replicate 6 0, none, none⟩
    (show (List.replicate 16 (0 : UInt8)).length = 16 ∨ _ from Or.inl List.length_replicate)

end Drew.Camellia
