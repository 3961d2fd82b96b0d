import Mathlib.FieldTheory.Finite.Basic
import Mathlib.Tactic
import Drew.Bignum.Model

/-!
# RSA

`encrypt` and `decrypt` of `rsa.c`, and `rsa_sign` and `rsa_verify`, which are these two the other way round.
The numbers of a caller are objects, so that the result may replace what it is computed from.

Both are powers modulo `n`, and a power whose exponent is one modulo `p - 1` and modulo `q - 1` is the
number itself, also if it has a factor in common with `n`.
-/

namespace Drew.Pksig

open Drew.Bignum

/-! ## The functions -/

/-- `struct rsa`, with the numbers that are used. -/
structure Rsa where
  e : Int
  d : Int
  n : Int

section Functions

variable {Obj : Type} [DecidableEq Obj]

/-- The numbers of the caller and the length. Without an object for the result it is that of `n`. -/
def encrypt (c : Rsa) (σ : Obj → Int) (out : Option Obj) (a : Obj) : (Obj → Int) × Nat :=
  match out with
  | none => (σ, nbytes c.n)
  | some out =>
      let σ := Function.update σ out (expmod (σ a) c.e c.n)
      (σ, nbytes (σ out))

def decrypt (c : Rsa) (σ : Obj → Int) (out : Option Obj) (a : Obj) : (Obj → Int) × Nat :=
  match out with
  | none => (σ, nbytes c.n)
  | some out =>
      let σ := Function.update σ out (expmod (σ a) c.d c.n)
      (σ, nbytes (σ out))

def rsa_encrypt (c : Rsa) (σ : Obj → Int) (out : Option Obj) (a : Obj) : (Obj → Int) × Nat :=
  encrypt c σ out a

def rsa_decrypt (c : Rsa) (σ : Obj → Int) (out : Option Obj) (a : Obj) : (Obj → Int) × Nat :=
  decrypt c σ out a

def rsa_sign (c : Rsa) (σ : Obj → Int) (out : Option Obj) (a : Obj) : (Obj → Int) × Nat :=
  decrypt c σ out a

def rsa_verify (c : Rsa) (σ : Obj → Int) (out : Option Obj) (a : Obj) : (Obj → Int) × Nat :=
  encrypt c σ out a

end Functions

/-! ## Powers -/

section Powers

/-- Fermat's theorem, for every residue. -/
theorem zmod_pow_eq_self {p : ℕ} [Fact p.Prime] {k : ℕ} (hpos : 0 < k) (hk : k ≡ 1 [MOD p - 1])
    (x : ZMod p) : x ^ k = x := by
  by_cases hx : x = 0
  · rw [hx, zero_pow hpos.ne']
  · obtain ⟨t, ht⟩ : p - 1 ∣ k - 1 := (Nat.modEq_iff_dvd' hpos).mp hk.symm
    have hkt : k = (p - 1) * t + 1 := by omega
    calc x ^ k = (x ^ (p - 1)) ^ t * x := by rw [hkt, pow_succ, pow_mul]
      _ = x := by rw [ZMod.pow_card_sub_one_eq_one hx, one_pow, one_mul]

theorem prime_dvd_pow_sub {p : ℕ} (hp : p.Prime) {k : ℕ} (hpos : 0 < k) (hk : k ≡ 1 [MOD p - 1])
    (x : Int) : (p : Int) ∣ x ^ k - x := by
  have := Fact.mk hp
  rw [← ZMod.intCast_zmod_eq_zero_iff_dvd, Int.cast_sub, Int.cast_pow, zmod_pow_eq_self hpos hk,
    sub_self]

/-- The exponent is not zero, since one of the primes is odd. -/
theorem exponent_pos {p q : ℕ} (hpq : p ≠ q) {k : ℕ}
    (hk : k ≡ 1 [MOD Nat.lcm (p - 1) (q - 1)]) : 0 < k := by
  by_contra hzero
  have hdvd : Nat.lcm (p - 1) (q - 1) ∣ 1 := by
    have hk0 : k = 0 := by omega
    rw [hk0] at hk
    exact (Nat.modEq_zero_iff_dvd.mp hk.symm)
  have hp1 : p - 1 ∣ 1 := (Nat.dvd_lcm_left _ _).trans hdvd
  have hq1 : q - 1 ∣ 1 := (Nat.dvd_lcm_right _ _).trans hdvd
  rw [Nat.dvd_one] at hp1 hq1
  omega

theorem pow_emod_eq_self {p q : ℕ} (hp : p.Prime) (hq : q.Prime) (hpq : p ≠ q) {k : ℕ}
    (hk : k ≡ 1 [MOD Nat.lcm (p - 1) (q - 1)]) {m : Int} (h0 : 0 ≤ m) (hm : m < p * q) :
    m ^ k % (p * q : Int) = m := by
  have hpos := exponent_pos hpq hk
  have hdvdp := prime_dvd_pow_sub hp hpos (hk.of_dvd (Nat.dvd_lcm_left _ _)) m
  have hdvdq := prime_dvd_pow_sub hq hpos (hk.of_dvd (Nat.dvd_lcm_right _ _)) m
  have hcoprime : IsCoprime (p : Int) q :=
    Nat.isCoprime_iff_coprime.mpr ((Nat.coprime_primes hp hq).mpr hpq)
  have hmod : m % (p * q : Int) = m ^ k % (p * q : Int) :=
    (Int.modEq_iff_dvd.mpr (hcoprime.mul_dvd hdvdp hdvdq))
  rw [← hmod, Int.emod_eq_of_lt h0 hm]

/-- Two powers one after the other. -/
theorem expmod_expmod (m n : Int) (a b : ℕ) : expmod (expmod m a n) b n = m ^ (a * b) % n := by
  have hmod : (m ^ a % n) ^ b % n = (m ^ a) ^ b % n := (Int.mod_modEq (m ^ a) n).pow b
  rw [expmod, expmod, Int.toNat_natCast, Int.toNat_natCast, hmod, pow_mul]

end Powers

/-! ## Round trips -/

section RoundTrip

variable {Obj : Type} [DecidableEq Obj] {c : Rsa} {p q e d : ℕ}

/-- The two exponents of a key pair, one after the other. -/
theorem expmod_round_trip (hp : p.Prime) (hq : q.Prime) (hpq : p ≠ q)
    (hed : e * d ≡ 1 [MOD Nat.lcm (p - 1) (q - 1)]) {m : Int} (h0 : 0 ≤ m) (hm : m < p * q) :
    expmod (expmod m e (p * q)) d (p * q) = m := by
  rw [expmod_expmod]
  exact pow_emod_eq_self hp hq hpq hed h0 hm

theorem encrypt_decrypt (hp : p.Prime) (hq : q.Prime) (hpq : p ≠ q) (hn : c.n = p * q) (he : c.e = e)
    (hd : c.d = d) (hed : e * d ≡ 1 [MOD Nat.lcm (p - 1) (q - 1)]) (σ : Obj → Int) (a x y : Obj)
    (h0 : 0 ≤ σ a) (hm : σ a < p * q) :
    decrypt c (encrypt c σ (some x) a).1 (some y) x =
      (Function.update (encrypt c σ (some x) a).1 y (σ a), nbytes (σ a)) := by
  have hround := expmod_round_trip hp hq hpq hed h0 hm
  simp only [decrypt, encrypt, he, hd, hn, Function.update_self, hround]

theorem decrypt_encrypt (hp : p.Prime) (hq : q.Prime) (hpq : p ≠ q) (hn : c.n = p * q) (he : c.e = e)
    (hd : c.d = d) (hed : e * d ≡ 1 [MOD Nat.lcm (p - 1) (q - 1)]) (σ : Obj → Int) (a x y : Obj)
    (h0 : 0 ≤ σ a) (hm : σ a < p * q) :
    encrypt c (decrypt c σ (some x) a).1 (some y) x =
      (Function.update (decrypt c σ (some x) a).1 y (σ a), nbytes (σ a)) := by
  have hround := expmod_round_trip hp hq hpq (Nat.mul_comm e d ▸ hed) h0 hm
  simp only [decrypt, encrypt, he, hd, hn, Function.update_self, hround]

end RoundTrip

/-- What is decrypted after it was encrypted, and verified after it was signed, is what it was, for every
representative below `n`. The objects `x` and `y` of the results may be the same, and may be that of the
representative. The length is that of the result. -/
theorem rsa_round_trip {Obj : Type} [DecidableEq Obj] (c : Rsa) (p q e d : ℕ) (hp : p.Prime)
    (hq : q.Prime) (hpq : p ≠ q) (hn : c.n = p * q) (he : c.e = e) (hd : c.d = d)
    (hed : e * d ≡ 1 [MOD Nat.lcm (p - 1) (q - 1)]) (σ : Obj → Int) (a x y : Obj) (h0 : 0 ≤ σ a)
    (hm : σ a < p * q) :
    (∃ s, rsa_encrypt c σ (some x) a = (s, nbytes (s x)) ∧ (∀ o, o ≠ x → s o = σ o) ∧
        rsa_decrypt c s (some y) x = (Function.update s y (σ a), nbytes (σ a))) ∧
      ∃ s, rsa_sign c σ (some x) a = (s, nbytes (s x)) ∧ (∀ o, o ≠ x → s o = σ o) ∧
        rsa_verify c s (some y) x = (Function.update s y (σ a), nbytes (σ a)) := by
  refine ⟨⟨(encrypt c σ (some x) a).1, rfl, ?_, ?_⟩, (decrypt c σ (some x) a).1, rfl, ?_, ?_⟩
  · exact fun o ho => Function.update_of_ne ho ..
  · exact encrypt_decrypt hp hq hpq hn he hd hed σ a x y h0 hm
  · exact fun o ho => Function.update_of_ne ho ..
  · exact decrypt_encrypt hp hq hpq hn he hd hed σ a x y h0 hm

/-- Two of the modulus six, in place: it has a factor in common with the modulus. -/
theorem rsa_round_trip_six :
    ∃ s, rsa_encrypt ⟨3, 3, 6⟩ (fun _ : Unit => 2) (some ()) () = (s, nbytes (s ())) ∧
      (∀ o, o ≠ () → s o = 2) ∧
      rsa_decrypt ⟨3, 3, 6⟩ s (some ()) () = (Function.update s () 2, nbytes 2) :=
  (rsa_round_trip ⟨3, 3, 6⟩ 2 3 3 3 (by norm_num) (by norm_num) (by norm_num) (by norm_num) rfl rfl
    (by decide) (fun _ : Unit => 2) () () () (by norm_num) (by norm_num)).1

end Drew.Pksig
