import Drew.Mac.Hmac.Rfc2104
import Drew.Prng.HashDrbg.Generate

/-!
# Hash_DRBG against the standard

A request follows SP 800-90A in every state exactly if the seed length is not shorter than a digest
nor than the counter, and fits in the arrays. `HashDF` is Hash_df on big-endian machines only.
-/

namespace Drew.Prng

open Drew.Memory Drew.Mac Drew.Stream

open Drew.Mode.Gcm (ByteOrder)

/-! ## The standard -/

section Standard

variable (A : HashAlgorithm) (seedlen : Nat)

/-- Hashgen: the digests of successive values of `V`. -/
def hashgen (n : Nat) (V : List UInt8) : List UInt8 :=
  firstOf (fun i => A.digest (beBytes seedlen (beNat V + i))) n

/-- The value of `V` after a request; numbers wrap at `seedlen` bytes. -/
def hashDrbgNext (V C : List UInt8) (counter : Nat) : List UInt8 :=
  beBytes seedlen (beNat V + beNat (A.digest (3 :: V)) + beNat C + counter)

end Standard

namespace HashDrbg

variable {A : HashAlgorithm} {n : Nat} {g : Drbg (HashDrbg A)}

/-- The request gives the bytes of the standard, and leaves its state; the array of `n` bytes is
all that is written to. -/
def Follows (A : HashAlgorithm) (g : Drbg (HashDrbg A)) (env : Env) (data : Buf UInt8 n) : Prop :=
  ∃ V C g' out, g.sub.V.Holds 0 V ∧ V.length = seedLength A.blksize ∧
    g.sub.C.Holds 0 C ∧ C.length = seedLength A.blksize ∧ generate env g data = some (g', out) ∧
    out.toList = hashgen A (seedLength A.blksize) n V ∧
    g'.sub.V.Holds 0 (hashDrbgNext A (seedLength A.blksize) V C g.rc.toNat) ∧
    g'.sub.C = g.sub.C ∧ g'.sub.hash = g.sub.hash ∧ g'.rc = g.rc + 1

/-! ## A request -/

/-- The loop of `HashGen` before round `i`. -/
structure Generating {m : Nat} (V : List UInt8) (i : Nat)
    (s : HashHelper A × Buf UInt8 m × Buf UInt8 n) : Prop where
  helper : s.1.After []
  data : s.2.1.toList = beBytes m (beNat V + i)
  holds : s.2.2.Holds 0 ((blocks (fun i => A.digest (beBytes m (beNat V + i))) i).take n)

theorem genRound_spec {m : Nat} {V : List UInt8} {one : Buf UInt8 m} (hm : A.size ≤ m)
    (hone : one.Holds 0 (beBytes m 1)) {i : Nat} (hi : i * A.size < n)
    {s : HashHelper A × Buf UInt8 m × Buf UInt8 n} (h : Generating V i s) :
    ∃ s', genRound one s i = some s' ∧ Generating V (i + 1) s' := by
  obtain ⟨hh, data, buf⟩ := s
  obtain ⟨hhelper, hdata, hholds⟩ := h
  obtain ⟨hdigest, hreset⟩ := (hhelper.addData data.toList).getDigest (min m (n - i * A.size))
  have hlen : ∀ i, (A.digest (beBytes m (beNat V + i))).length = A.size :=
    fun _ => A.length_digest _
  have hpart : ((hh.addData data.toList).getDigest (min m (n - i * A.size))).2 =
      (A.digest (beBytes m (beNat V + i))).take (n - i * A.size) := by
    have hlong : (A.digest (beBytes m (beNat V + i))).take m =
        A.digest (beBytes m (beNat V + i)) := List.take_of_length_le (by rw [hlen]; exact hm)
    rw [hdigest, List.nil_append, hdata, Nat.min_comm, ← List.take_take, hlong]
  obtain ⟨buf', hbuf, hholds'⟩ := write_block hlen hi hholds
  have hdata' : data.Holds 0 (beBytes m (beNat V + i)) := hdata ▸ Buf.holds_toList data
  obtain ⟨w, hadd, hw⟩ := addArrays_spec hdata' hone (length_beBytes _ _) (length_beBytes _ _)
  refine ⟨(_, w, buf'), ?_, hreset, ?_, hholds'⟩
  · simp only [genRound, hpart, hbuf, hadd, Option.bind_eq_bind, Option.bind_some]
    rfl
  · rw [beBytes_add_left, beBytes_add_right, Nat.add_assoc] at hw
    exact hw.toList (length_beBytes _ _)

theorem hashGen_spec {d : HashDrbg A} (h0 : A.Absorbed d.hash []) {V : List UInt8}
    (hV : d.V.Holds 0 V) (hlen : V.length = seedLength A.blksize)
    (hsize : A.size ≤ seedLength A.blksize) (data : Buf UInt8 n) :
    ∃ out, hashGen d data = some out ∧ out.toList = hashgen A (seedLength A.blksize) n V := by
  have hpos : 1 ≤ seedLength A.blksize := A.size_pos.trans_le hsize
  obtain ⟨one, hone, hone'⟩ := writeBack_spec hpos (show [(1 : UInt8)].length = 1 from rfl)
  have hread : d.V.read 0 (seedLength A.blksize) = some V := by
    rw [← hlen]
    exact hV.read
  obtain ⟨v, hv⟩ := Buf.exists_write_at
    (Vector.replicate (seedLength A.blksize) (0 : UInt8)) 0 V (by omega)
  have hbegin : Generating V 0 (HashHelper.new d.hash, v, data) := by
    refine ⟨HashHelper.new_after h0, ?_, ?_⟩
    · have hbytes := beBytes_beNat V
      rw [hlen] at hbytes
      exact ((Buf.holds_write hv).toList hlen).trans hbytes.symm
    · rw [show blocks (fun i => A.digest (beBytes (seedLength A.blksize) (beNat V + i))) 0 = []
        from rfl, List.take_nil]
      exact Buf.holds_nil (Nat.zero_le _)
  obtain ⟨⟨hh, v', out⟩, hrun, -, -, hholds⟩ := foldlM_range (Generating V)
    ((n + (A.size - 1)) / A.size) _ hbegin
    fun i hi s hs => genRound_spec hsize hone' (mul_lt_of_lt_rounds A.size_pos hi) hs
  refine ⟨out, ?_, toList_of_blocks (fun _ => A.length_digest _) A.size_pos
    (le_rounds_mul A.size_pos n) hholds⟩
  simp only [hashGen, hone, hread, hv, hrun, Option.bind_eq_bind, Option.bind_some]
  rfl

theorem generate_spec (h0 : A.Absorbed g.sub.hash []) (hsize : A.size ≤ seedLength A.blksize)
    (hcounter : 8 ≤ seedLength A.blksize) (hfits : seedLength A.blksize ≤ 128) (env : Env)
    (data : Buf UInt8 n) : Follows A g env data := by
  obtain ⟨V, hreadV, hVlen, hV⟩ := Buf.exists_read g.sub.V 0 (seedLength A.blksize) (by omega)
  obtain ⟨C, -, hClen, hC⟩ := Buf.exists_read g.sub.C 0 (seedLength A.blksize) (by omega)
  obtain ⟨out, hgen, hout⟩ := hashGen_spec h0 hV hVlen hsize data
  have hafter := ((HashHelper.new_after h0).addData [3]).addData V
  have hdigest : ((((HashHelper.new g.sub.hash).addData [3]).addData V).getDigest
      (seedLength A.blksize)).2 = A.digest (3 :: V) := by
    rw [(hafter.getDigest _).1, List.take_of_length_le (by rw [A.length_digest]; exact hsize)]
    rfl
  obtain ⟨buf₁, hbuf₁, hholds₁⟩ := writeBack_spec hsize (A.length_digest (3 :: V))
  obtain ⟨V₁, hV₁, hholdsV₁⟩ := addArrays_spec hV hholds₁ hVlen (length_beBytes _ _)
  obtain ⟨V₂, hV₂, hholdsV₂⟩ := addArrays_spec hholdsV₁ hC (length_beBytes _ _) hClen
  obtain ⟨buf₂, hbuf₂, hholds₂⟩ := writeBack_spec (n := seedLength A.blksize) hcounter
    (length_beBytes 8 g.rc.toNat)
  obtain ⟨V₃, hV₃, hholdsV₃⟩ :=
    addArrays_spec hholdsV₂ hholds₂ (length_beBytes _ _) (length_beBytes _ _)
  refine ⟨V, C, { g with rc := g.rc + 1, sub := { g.sub with V := V₃ } }, out, hV, hVlen, hC,
    hClen, ?_, hout, ?_, rfl, rfl, rfl⟩
  · rw [← hdigest] at hbuf₁
    refine Option.bind_eq_some_iff.mpr ⟨out, hgen, ?_⟩
    refine Option.bind_eq_some_iff.mpr ⟨V, hreadV, ?_⟩
    refine Option.bind_eq_some_iff.mpr ⟨buf₁, hbuf₁, ?_⟩
    refine Option.bind_eq_some_iff.mpr ⟨V₁, hV₁, ?_⟩
    refine Option.bind_eq_some_iff.mpr ⟨V₂, hV₂, ?_⟩
    refine Option.bind_eq_some_iff.mpr ⟨buf₂, hbuf₂, ?_⟩
    exact Option.bind_eq_some_iff.mpr ⟨V₃, hV₃, rfl⟩
  · have hrc : beNat (beBytes 8 g.rc.toNat) = g.rc.toNat := by
      have hlt := g.rc.toNat_lt
      rw [beNat_beBytes, Nat.mod_eq_of_lt (by norm_num; omega)]
    rw [beBytes_add_right, hrc, beBytes_add_right, beBytes_add_left, Nat.add_assoc,
      beBytes_add_left, ← Nat.add_assoc] at hholdsV₃
    exact hholdsV₃

/-- Where a request does not follow the standard, it does so in every state. -/
theorem follows_iff (h0 : A.Absorbed g.sub.hash []) (env : Env) (data : Buf UInt8 n) :
    Follows A g env data ↔ A.size ≤ seedLength A.blksize ∧ 8 ≤ seedLength A.blksize ∧
      seedLength A.blksize ≤ 128 := by
  constructor
  · rintro ⟨V, C, g', out, hV, hlen, -, -, hrun, -⟩
    have hfits := hV.1
    obtain ⟨data', -, hrun⟩ := Option.bind_eq_some_iff.mp hrun
    obtain ⟨v, -, hrun⟩ := Option.bind_eq_some_iff.mp hrun
    obtain ⟨buf, hbuf, hrun⟩ := Option.bind_eq_some_iff.mp hrun
    obtain ⟨V₁, -, hrun⟩ := Option.bind_eq_some_iff.mp hrun
    obtain ⟨V₂, -, hrun⟩ := Option.bind_eq_some_iff.mp hrun
    obtain ⟨buf₂, hbuf₂, -⟩ := Option.bind_eq_some_iff.mp hrun
    have hback : ∀ {k m : Nat} {xs : List UInt8} {v w : Buf UInt8 m},
        writeBack v k xs = some w → k ≤ m := by
      intro k m xs v w h
      unfold writeBack at h
      split at h
      · assumption
      · cases h
    exact ⟨hback hbuf, hback hbuf₂, by omega⟩
  · rintro ⟨hsize, hcounter, hfits⟩
    exact generate_spec h0 hsize hcounter hfits env data

/-! ## Seeding -/

/-- What `Initialize` and `Reseed` make of the seed material: `V` is derived from it, and `C` from
a zero byte and `V`. -/
theorem seed_spec (order : ByteOrder) (h0 : A.Absorbed g.sub.hash []) {m off : Nat}
    {buf : Buf UInt8 m} {material : List UInt8} (hbuf : buf.Holds 0 material)
    (hoff : material.length = off) (hfits : seedLength A.blksize ≤ 128)
    (hm : seedLength A.blksize + 1 ≤ m) :
    ∃ g', seed order buf off g = some g' ∧ g'.rc = 1 ∧ g'.inited = g.inited ∧
      g'.sub.hash = g.sub.hash ∧
      g'.sub.V.Holds 0 (hashDfWith A (nativeBytes order (seedLength A.blksize * 8)) material
        (seedLength A.blksize)) ∧
      g'.sub.C.Holds 0 (hashDfWith A (nativeBytes order (seedLength A.blksize * 8))
        (0 :: hashDfWith A (nativeBytes order (seedLength A.blksize * 8)) material
          (seedLength A.blksize)) (seedLength A.blksize)) := by
  have hlen : ∀ inp : List UInt8, (hashDF order g.sub.hash inp (seedLength A.blksize)).length =
      seedLength A.blksize := by
    intro inp
    rw [hashDF_spec order h0]
    exact length_firstOf (fun _ => A.length_digest _) A.size_pos _
  have hread : buf.read 0 off = some material := by
    rw [← hoff]
    exact hbuf.read
  obtain ⟨V, hV⟩ := Buf.exists_write_at g.sub.V 0 (hashDF order g.sub.hash material
    (seedLength A.blksize)) (by rw [hlen]; omega)
  have hreadV : V.read 0 (seedLength A.blksize) =
      some (hashDF order g.sub.hash material (seedLength A.blksize)) := by
    have hr := (Buf.holds_write hV).read
    rwa [hlen] at hr
  have hpos : 0 < m := by omega
  have hstore := Buf.store_of_lt buf (0 : UInt8) hpos
  obtain ⟨buf₂, hbuf₂⟩ := Buf.exists_write_at (buf.set 0 0 hpos) 1
    (hashDF order g.sub.hash material (seedLength A.blksize)) (by rw [hlen]; omega)
  have hzero : buf₂.Holds 0 [0] :=
    (Buf.holds_set_same buf 0 hpos).write_of_disjoint hbuf₂ (Or.inr le_rfl)
  have hall : buf₂.Holds 0 ([0] ++ hashDF order g.sub.hash material (seedLength A.blksize)) :=
    hzero.append (Buf.holds_write hbuf₂)
  have hread₂ : buf₂.read 0 (seedLength A.blksize + 1) =
      some (0 :: hashDF order g.sub.hash material (seedLength A.blksize)) := by
    have hr := hall.read
    rwa [List.singleton_append, List.length_cons, hlen] at hr
  obtain ⟨C, hC⟩ := Buf.exists_write_at g.sub.C 0 (hashDF order g.sub.hash
    (0 :: hashDF order g.sub.hash material (seedLength A.blksize)) (seedLength A.blksize))
    (by rw [hlen]; omega)
  refine ⟨{ g with rc := 1, sub := { g.sub with V := V, C := C } }, ?_, rfl, rfl, rfl, ?_, ?_⟩
  · refine Option.bind_eq_some_iff.mpr ⟨material, hread, ?_⟩
    refine Option.bind_eq_some_iff.mpr ⟨V, hV, ?_⟩
    refine Option.bind_eq_some_iff.mpr ⟨_, hstore, ?_⟩
    refine Option.bind_eq_some_iff.mpr ⟨_, hreadV, ?_⟩
    refine Option.bind_eq_some_iff.mpr ⟨buf₂, hbuf₂, ?_⟩
    refine Option.bind_eq_some_iff.mpr ⟨_, hread₂, ?_⟩
    exact Option.bind_eq_some_iff.mpr ⟨C, hC, rfl⟩
  · rw [← hashDF_spec order h0]
    exact Buf.holds_write hV
  · rw [← hashDF_spec order h0, ← hashDF_spec order h0]
    exact Buf.holds_write hC

/-! ## The condition -/

/-- For every hash algorithm with blocks of `b` bytes and digests of `d` bytes, every request
follows the standard, and `HashDF` is Hash_df. -/
def FollowsStandard (order : ByteOrder) (b d : Nat) : Prop :=
  ∀ A : HashAlgorithm, A.blksize = b → A.size = d →
    (∀ g : Drbg (HashDrbg A), A.Absorbed g.sub.hash [] → ∀ (env : Env) (n : Nat)
      (data : Buf UInt8 n), Follows A g env data) ∧
    ∀ h : A.Ctx, A.Absorbed h [] → ∀ (inp : List UInt8) (outlen : Nat),
      hashDF order h inp outlen = hashDf A inp outlen

/-- The algorithm that repeats the second byte of the text. -/
abbrev secondByte (b : Nat) {d : Nat} (hd : 0 < d) : HashAlgorithm :=
  Hmac.textAlgorithm b 1 d Nat.one_pos hd fun m => m.getD 1 0

/-- On a little-endian machine the lowest byte of the number of bits is hashed first. -/
theorem hashDF_little (b : Nat) {d : Nat} (hd : 0 < d) :
    hashDF (A := secondByte b hd) .littleEndian ([] : List UInt8) [] 1 ≠
      hashDf (secondByte b hd) [] 1 := by
  intro heq
  have hhead : ∀ x : UInt8, (List.replicate d x).head? = some x := by
    intro x
    rw [List.head?_replicate, if_neg (by omega)]
  have hcode : (hashDF (A := secondByte b hd) .littleEndian ([] : List UInt8) [] 1).head? =
      some 8 := by
    rw [hashDF_spec .littleEndian (A := secondByte b hd) rfl]
    exact head_firstOf Nat.one_pos (hhead 8)
  have hspec : (hashDf (secondByte b hd) [] 1).head? = some 0 :=
    head_firstOf Nat.one_pos (hhead 0)
  rw [heq, hspec] at hcode
  exact absurd (Option.some.inj hcode) (by decide)

theorem followsStandard_iff (order : ByteOrder) (b : Nat) {d : Nat} (hd : 0 < d) :
    FollowsStandard order b d ↔ order = .bigEndian ∧ d ≤ seedLength b ∧ 8 ≤ seedLength b ∧
      seedLength b ≤ 128 := by
  constructor
  · intro h
    obtain ⟨hreq, hdf⟩ := h (secondByte b hd) rfl rfl
    let g : Drbg (HashDrbg (secondByte b hd)) :=
      new ([] : List UInt8) (Vector.replicate 128 0) (Vector.replicate 128 0) 1
    let env : Env := ⟨.got [], fun _ => 0, Vector.replicate 96 0⟩
    refine ⟨?_, (follows_iff (g := g) rfl env _).mp (hreq g rfl env 0 (Vector.replicate 0 0))⟩
    cases order with
    | littleEndian => exact absurd (hdf ([] : List UInt8) rfl [] 1) (hashDF_little b hd)
    | bigEndian => rfl
  · rintro ⟨rfl, hfits⟩ A rfl rfl
    refine ⟨fun g h0 env n data => (follows_iff h0 env data).mpr hfits, ?_⟩
    intro h h0 inp outlen
    exact hashDF_spec .bigEndian h0 inp outlen

theorem seedLength_64 : seedLength 64 = 55 := by
  unfold seedLength
  rfl

theorem followsStandard_sha256 : FollowsStandard .bigEndian 64 32 :=
  (followsStandard_iff .bigEndian 64 Memory.pos_32).mpr ⟨rfl, by simp [seedLength_64],
    by simp [seedLength_64], by simp [seedLength_64]⟩

/-- The sizes of SHA-256, on a little-endian machine. -/
theorem hash_drbg_native_bits :
    hashDF (A := secondByte 64 Memory.pos_32) .littleEndian ([] : List UInt8) [] 1 ≠
      hashDf (secondByte 64 Memory.pos_32) [] 1 := hashDF_little 64 Memory.pos_32

end HashDrbg

end Drew.Prng
