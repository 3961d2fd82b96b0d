import Drew.Prng.CounterDrbg.ByteOrder
import Drew.Prng.CounterDrbg.Update

/-!
# Seeding CTR_DRBG

`Reseed` copies as many bytes of the data as the array has after those of the device, also if the device gave
fewer than it was asked for. `BlockCipherDF` reads `keylen` bytes of a constant of 32, and is the derivation
function of the standard on big-endian machines only.
-/

namespace Drew.Prng

open Drew.Memory Drew.Block Drew.Stream Drew.Mode

open Drew.Mode.Gcm (ByteOrder)

open HashDrbg (nativeBytes)

/-- The read fails, or gives all it is asked for, or nothing, or what is missing is in the data. -/
def Reading.Suffices (len : Nat) : Reading → Prop
  | .failed _ _ => True
  | .got bytes =>
      let res := (bytes.take (ctrBufferSize - min len (ctrBufferSize / 2))).length
      res = 0 ∨ ctrBufferSize - res ≤ len

namespace CounterDrbg

variable {A : CounterCipher} {order : ByteOrder} {env : Env} {data : List UInt8} {d d' : Drbg CounterDrbg}

/-! ## The parts -/

theorem supplied_of_le {len : Nat} (h : len ≤ data.length) : supplied data len = some (data.take len) :=
  if_pos h

theorem supplied_none {len : Nat} (h : data.length < len) : supplied data len = none := if_neg (by omega)

theorem received_le {res dulen : Nat} (h : res ≤ dulen) : received res dulen ≤ dulen := by
  unfold received
  split <;> omega

theorem derive_spec (order : ByteOrder) (env : Env) (hkey : A.keylen ≤ 32) (h4 : 4 ≤ A.blksize)
    (buf : Buf UInt8 ctrBufferSize) : ∃ buf', derive A order env buf = some buf' := by
  have hlen := length_blockCipherDfWith (length_nativeBytes order) h4 buf.toList A.seedlen
  obtain ⟨buf', hbuf'⟩ := Buf.exists_write_at buf 0
    (blockCipherDfWith (nativeBytes order) A buf.toList A.seedlen) (by rw [hlen, Nat.zero_add]; exact A.fits)
  refine ⟨buf', ?_⟩
  simp only [derive, blockCipherDF_spec order env hkey h4, Option.bind_eq_bind, Option.bind_some, hbuf']

/-- The array after the read. -/
theorem getBytes_got (buf : Buf UInt8 ctrBufferSize) (bytes : List UInt8) {n : Nat}
    (hn : n ≤ ctrBufferSize) : ∃ buf',
      (Reading.got bytes).getBytes buf 0 n = some (.ok ((bytes.take n).length, buf')) := by
  obtain ⟨buf', hbuf'⟩ := Buf.exists_write_at buf 0 (bytes.take n) (by rw [List.length_take]; omega)
  refine ⟨buf', ?_⟩
  simp only [Reading.getBytes, hbuf', Option.bind_eq_bind, Option.bind_some]
  rfl

/-- The number of bytes that arrive is not more than what is asked for. -/
theorem length_arrived_le (bytes : List UInt8) (n : Nat) : (bytes.take n).length ≤ n := by
  rw [List.length_take]
  exact Nat.min_le_left _ _

/-! ## Initialization -/

/-- If the device gives bytes, or none, the array is filled and what is derived from it is installed. -/
theorem initializeWith_got (order : ByteOrder) (data : List UInt8) (hkey : A.keylen ≤ 32)
    (h4 : 4 ≤ A.blksize) {bytes : List UInt8} (hr : env.reading = .got bytes) (d : Drbg CounterDrbg) :
    ∃ buf : Buf UInt8 ctrBufferSize, initializeWith A order env data d = (rekey A (List.replicate A.keylen 0)
      (List.replicate A.blksize 0) d.sub).bind fun sub =>
        (update A env buf sub).bind fun sub => some (.ok { d with sub := sub, rc := 1 }) := by
  have hfits : A.seedlen ≤ 512 := A.fits
  have hsize : ctrBufferSize = 512 := rfl
  obtain ⟨noncelen, hn⟩ : ∃ k, min data.length (ctrBufferSize - (A.seedlen / 2 + 96)) = k := ⟨_, rfl⟩
  obtain ⟨dulen, hdu⟩ : ∃ k, ctrBufferSize - noncelen - 96 = k := ⟨_, rfl⟩
  obtain ⟨buf₁, h₁⟩ := getBytes_got (env.array ctrBufferSize) bytes (show dulen ≤ ctrBufferSize by omega)
  obtain ⟨got, hg⟩ : ∃ k, received (bytes.take dulen).length dulen = k := ⟨_, rfl⟩
  have hgot : got ≤ dulen := hg ▸ received_le (length_arrived_le bytes dulen)
  have hnonce : (data.take noncelen).length = noncelen := by
    rw [List.length_take]
    omega
  obtain ⟨buf₂, h₂⟩ := Buf.exists_write_at buf₁ got (data.take noncelen) (by rw [hnonce]; omega)
  obtain ⟨buf₃, h₃⟩ := Buf.exists_write_at buf₂ (got + noncelen) (env.personalization.toList.take 96)
    (by have := length_arrived_le env.personalization.toList 96; omega)
  obtain ⟨buf, h₄⟩ := derive_spec order env hkey h4 buf₃
  have hsupplied : supplied data noncelen = some (data.take noncelen) := supplied_of_le (by omega)
  refine ⟨buf, ?_⟩
  simp only [initializeWith, Env.generatePersonalizationString, hn, hdu, hr, h₁, hg, hsupplied, h₂, h₃, h₄,
    Option.bind_eq_bind, Option.bind_some, pure]

theorem initializeWith_failed (A : CounterCipher) (order : ByteOrder) (data : List UInt8)
    (hr : env.reading.Fails) (d : Drbg CounterDrbg) :
    ∃ res, initializeWith A order env data d = some (.error res) := by
  cases hreading : env.reading with
  | failed errno pos => exact ⟨_, by simp only [initializeWith, hreading]; rfl⟩
  | got bytes => exact absurd hr (by rw [hreading]; exact not_false)

theorem initializeWith_isSome_iff (hkey : A.keylen ≤ 32) (h4 : 4 ≤ A.blksize) (hd : Attached A d.sub.ctr) :
    (initializeWith A order env data d).isSome ↔ env.reading.Fails ∨ A.blksize ≤ 32 := by
  cases hreading : env.reading with
  | failed errno pos =>
    obtain ⟨res, hrun⟩ := initializeWith_failed A order data
      (show env.reading.Fails by rw [hreading]; trivial) d
    rw [hrun]
    simp [Reading.Fails]
  | got bytes =>
    obtain ⟨buf, hrun⟩ := initializeWith_got order data hkey h4 hreading d
    have hiv : (List.replicate A.blksize (0 : UInt8)).length = A.blksize := List.length_replicate
    rw [hrun]
    by_cases hsize : A.blksize ≤ 32
    · obtain ⟨d₁, hd₁, hatt, -⟩ := rekey_spec (List.replicate A.keylen 0) hd hsize hiv
      obtain ⟨d₂, hd₂, -⟩ := update_spec hatt hsize env buf A.fits
      rw [hd₁, Option.bind_some, hd₂]
      simp [hsize]
    · rw [rekey_none _ (by omega) hiv]
      simp [hsize, Reading.Fails]

/-! ## Reseeding -/

theorem reseed_failed (A : CounterCipher) (order : ByteOrder) (data : List UInt8)
    (hr : env.reading.Fails) (d : Drbg CounterDrbg) :
    ∃ res, reseed A order env data d = some (.error res) := by
  cases hreading : env.reading with
  | failed errno pos => exact ⟨_, by simp only [reseed, hreading]; rfl⟩
  | got bytes => exact absurd hr (by rw [hreading]; exact not_false)

/-- The bytes that are missing are taken from the data. -/
theorem reseed_got (order : ByteOrder) (hkey : A.keylen ≤ 32) (h4 : 4 ≤ A.blksize) {bytes : List UInt8}
    (hr : env.reading = .got bytes) (hs : env.reading.Suffices data.length) (d : Drbg CounterDrbg) :
    ∃ buf : Buf UInt8 ctrBufferSize, reseed A order env data d =
      (update A env buf d.sub).bind fun sub => some (.ok { d with sub := sub, rc := 1 }) := by
  have hsize : ctrBufferSize = 512 := rfl
  obtain ⟨dubytes, hdu⟩ : ∃ k, ctrBufferSize - min data.length (ctrBufferSize / 2) = k := ⟨_, rfl⟩
  obtain ⟨buf₁, h₁⟩ := getBytes_got (env.array ctrBufferSize) bytes (show dubytes ≤ ctrBufferSize by omega)
  obtain ⟨got, hg⟩ : ∃ k, received (bytes.take dubytes).length dubytes = k := ⟨_, rfl⟩
  have hgot : got ≤ dubytes := hg ▸ received_le (length_arrived_le bytes dubytes)
  have hrest : ctrBufferSize - got ≤ data.length := by
    rw [hr] at hs
    simp only [Reading.Suffices, hdu] at hs
    rw [← hg, received]
    split
    · omega
    · exact hs.resolve_left ‹_›
  obtain ⟨buf₂, h₂⟩ := Buf.exists_write_at buf₁ got (data.take (ctrBufferSize - got))
    (by have := length_arrived_le data (ctrBufferSize - got); omega)
  obtain ⟨buf, h₃⟩ := derive_spec order env hkey h4 buf₂
  refine ⟨buf, ?_⟩
  simp only [reseed, hdu, hr, h₁, hg, supplied_of_le hrest, h₂, h₃, Option.bind_eq_bind, Option.bind_some, pure]

/-- Otherwise bytes behind the data are read. -/
theorem reseed_short (hs : ¬env.reading.Suffices data.length) (d : Drbg CounterDrbg) :
    reseed A order env data d = none := by
  cases hr : env.reading with
  | failed errno pos => exact absurd (by rw [hr]; trivial) hs
  | got bytes =>
    have hsize : ctrBufferSize = 512 := rfl
    obtain ⟨dubytes, hdu⟩ : ∃ k, ctrBufferSize - min data.length (ctrBufferSize / 2) = k := ⟨_, rfl⟩
    obtain ⟨buf₁, h₁⟩ := getBytes_got (env.array ctrBufferSize) bytes (show dubytes ≤ ctrBufferSize by omega)
    rw [hr] at hs
    simp only [Reading.Suffices, hdu, not_or] at hs
    have hg : received (bytes.take dubytes).length dubytes = (bytes.take dubytes).length := if_neg hs.1
    simp only [reseed, hdu, hr, h₁, hg, supplied_none (Nat.lt_of_not_le hs.2), Option.bind_eq_bind,
      Option.bind_some, Option.bind_none]

theorem reseed_isSome_iff (hkey : A.keylen ≤ 32) (h4 : 4 ≤ A.blksize) (hd : Attached A d.sub.ctr) :
    (reseed A order env data d).isSome ↔
      env.reading.Fails ∨ A.blksize ≤ 32 ∧ env.reading.Suffices data.length := by
  cases hreading : env.reading with
  | failed errno pos =>
    obtain ⟨res, hrun⟩ := reseed_failed A order data
      (show env.reading.Fails by rw [hreading]; trivial) d
    rw [hrun]
    simp [Reading.Fails]
  | got bytes =>
    by_cases hs : env.reading.Suffices data.length
    · obtain ⟨buf, hrun⟩ := reseed_got order hkey h4 hreading hs d
      rw [hrun]
      rw [hreading] at hs
      by_cases hsize : A.blksize ≤ 32
      · obtain ⟨d', hd', -⟩ := update_spec hd hsize env buf A.fits
        rw [hd']
        simp [hsize, hs]
      · rw [update_none (by omega) env buf A.fits]
        simp [hsize, Reading.Fails]
    · rw [reseed_short hs]
      rw [hreading] at hs
      simp [hs, Reading.Fails]

/-! ## The states -/

theorem initializeWith_attached (hd : Attached A d.sub.ctr)
    (h : initializeWith A order env data d = some (.ok d')) : Attached A d'.sub.ctr := by
  obtain ⟨r, -, h⟩ := Option.bind_eq_some_iff.mp h
  cases r with
  | error res => cases h
  | ok p =>
    obtain ⟨nonce, -, h⟩ := Option.bind_eq_some_iff.mp h
    obtain ⟨buf₁, -, h⟩ := Option.bind_eq_some_iff.mp h
    obtain ⟨buf₂, -, h⟩ := Option.bind_eq_some_iff.mp h
    obtain ⟨buf, -, h⟩ := Option.bind_eq_some_iff.mp h
    obtain ⟨sub₁, hrekey, h⟩ := Option.bind_eq_some_iff.mp h
    obtain ⟨sub, hupdate, h⟩ := Option.bind_eq_some_iff.mp h
    cases h
    have hiv : (List.replicate A.blksize (0 : UInt8)).length = A.blksize := List.length_replicate
    by_cases hsize : A.blksize ≤ 32
    · obtain ⟨d₁, hd₁, hatt, -⟩ := rekey_spec (List.replicate A.keylen 0) hd hsize hiv
      cases hd₁.symm.trans hrekey
      exact update_attached hatt A.fits hupdate
    · rw [rekey_none _ (by omega) hiv] at hrekey
      cases hrekey

theorem reseed_attached (hd : Attached A d.sub.ctr) (h : reseed A order env data d = some (.ok d')) :
    Attached A d'.sub.ctr := by
  obtain ⟨r, -, h⟩ := Option.bind_eq_some_iff.mp h
  cases r with
  | error res => cases h
  | ok p =>
    obtain ⟨nonce, -, h⟩ := Option.bind_eq_some_iff.mp h
    obtain ⟨buf₁, -, h⟩ := Option.bind_eq_some_iff.mp h
    obtain ⟨buf, -, h⟩ := Option.bind_eq_some_iff.mp h
    obtain ⟨sub, hupdate, h⟩ := Option.bind_eq_some_iff.mp h
    cases h
    exact update_attached hd A.fits hupdate

theorem generate_attached {n : Nat} {buf out : Buf UInt8 n} (hd : Attached A d.sub.ctr)
    (h : generate A env d buf = some (d', out)) : Attached A d'.sub.ctr := by
  obtain ⟨input, -, h⟩ := Option.bind_eq_some_iff.mp h
  obtain ⟨sub, hupdate, h⟩ := Option.bind_eq_some_iff.mp h
  obtain ⟨⟨ctr, bytes⟩, henc, h⟩ := Option.bind_eq_some_iff.mp h
  obtain ⟨out', -, h⟩ := Option.bind_eq_some_iff.mp h
  obtain ⟨sub', hupdate', h⟩ := Option.bind_eq_some_iff.mp h
  cases h
  have hatt := update_attached hd A.fits hupdate
  by_cases hsize : A.blksize ≤ 32
  · obtain ⟨ctr₁, bytes₁, henc₁, -, hatt₁⟩ := encrypt_spec hatt hsize (List.replicate n 0)
    cases henc₁.symm.trans henc
    exact update_attached (d := { sub with ctr := ctr }) hatt₁ A.fits hupdate'
  · rw [update_none (by omega) env input A.fits] at hupdate
    cases hupdate

theorem table_preserves (A : CounterCipher) (order : ByteOrder) :
    (table A order).Preserves fun sub => Attached A sub.ctr :=
  ⟨initializeWith_attached, reseed_attached, generate_attached⟩

/-! ## The condition -/

/-- The constant for the key has 32 bytes. -/
theorem blockCipherDF_none (hkey : 32 < A.keylen) (inp : List UInt8) (n : Nat) :
    blockCipherDF A order env inp n = none := by
  have hread : dfKey.read 0 A.keylen = none := by
    rw [Buf.read, if_neg (by omega)]
  simp only [blockCipherDF, hread, Option.bind_eq_bind, Option.bind_none, Option.bind_fun_none]

/-- For every cipher with these sizes: in every state of a generator, seeding with `len` bytes of data stays in
bounds, and the derivation function is that of the standard for all texts. -/
def SeedsAsStandard (order : ByteOrder) (outlen keylen : Nat) (reading : Reading) (len : Nat) : Prop :=
  ∀ A : CounterCipher, A.blksize = outlen → A.keylen = keylen →
    (∀ (rc : UInt64) (d : Drbg CounterDrbg), Class.Reach (table A order) (new A rc) d →
      ∀ (env : Env) (data : List UInt8), env.reading = reading → data.length = len →
        (initializeWith A order env data d).isSome ∧ (reseed A order env data d).isSome) ∧
    ∀ (env : Env) (inp : List UInt8) (n : Nat), inp.length < 2 ^ 32 → n + outlen ≤ 2 ^ 32 →
      blockCipherDF A order env inp n = some (blockCipherDf A inp n)

theorem seedsAsStandard_iff (order : ByteOrder) {outlen keylen : Nat} (hout : 4 ≤ outlen)
    (hfits : outlen + keylen ≤ ctrBufferSize) (reading : Reading) (len : Nat) :
    SeedsAsStandard order outlen keylen reading len ↔ order = .bigEndian ∧ keylen ≤ 32 ∧
      (reading.Fails ∨ outlen ≤ 32 ∧ reading.Suffices len) := by
  have hsize : ctrBufferSize = 512 := rfl
  constructor
  · intro h
    obtain ⟨hseed, hdf⟩ := h (columnFamily hout keylen hfits) rfl rfl
    let env : Env := ⟨reading, fun _ => 0, Vector.replicate 96 0⟩
    have hderive := hdf env (List.replicate 5 0) 1 (by decide) (by omega)
    have hkey : keylen ≤ 32 := by
      by_contra hlong
      rw [blockCipherDF_none (Nat.lt_of_not_le hlong)] at hderive
      cases hderive
    rw [blockCipherDF_spec order env hkey hout] at hderive
    obtain ⟨-, hreseed⟩ := hseed 0 _ .start env (List.replicate len 0) rfl List.length_replicate
    rw [reseed_isSome_iff hkey hout (new_attached _ 0), List.length_replicate] at hreseed
    refine ⟨?_, hkey, hreseed⟩
    cases order with
    | littleEndian => exact absurd (Option.some.inj hderive) (blockCipherDF_little hout hfits)
    | bigEndian => rfl
  · rintro ⟨rfl, hkey, hread⟩ A rfl rfl
    refine ⟨?_, fun env inp n _ _ => blockCipherDF_spec .bigEndian env hkey hout inp n⟩
    rintro rc d hreach env data rfl rfl
    have hatt : Attached A d.sub.ctr := hreach.preserved (table_preserves A .bigEndian) (new_attached A rc)
    exact ⟨(initializeWith_isSome_iff hkey hout hatt).mpr (hread.imp_right And.left),
      (reseed_isSome_iff hkey hout hatt).mpr hread⟩

/-- The sizes of AES with keys of 32 bytes. A short read, but the data has enough bytes. -/
theorem seedsAsStandard_aes256 : SeedsAsStandard .bigEndian 16 32 (.got (List.replicate 250 7)) 300 :=
  (seedsAsStandard_iff .bigEndian (by decide) (by decide) _ _).mpr
    ⟨rfl, le_rfl, Or.inr ⟨by decide, Or.inr (by rw [List.length_take, List.length_replicate]; decide)⟩⟩

/-- The same sizes. One byte is read and there is no data; or the machine is little-endian. -/
theorem seedsAsStandard_fails : ¬SeedsAsStandard .bigEndian 16 32 (.got [1]) 0 ∧
    ¬SeedsAsStandard .littleEndian 16 32 (.got []) 0 := by
  have hout : 3 < 16 := by decide
  have hfits : 16 + 32 ≤ ctrBufferSize := by decide
  constructor
  · intro h
    obtain ⟨hseed, -⟩ := h (columnFamily hout 32 hfits) rfl rfl
    let env : Env := ⟨.got [1], fun _ => 0, Vector.replicate 96 0⟩
    obtain ⟨-, hreseed⟩ := hseed 0 _ .start env [] rfl rfl
    have hshort : ¬env.reading.Suffices ([] : List UInt8).length := fun h => by
      rcases h with h | h
      · cases h
      · exact absurd h (by decide)
    rw [reseed_short hshort] at hreseed
    cases hreseed
  · intro h
    obtain ⟨-, hdf⟩ := h (columnFamily hout 32 hfits) rfl rfl
    let env : Env := ⟨.got [], fun _ => 0, Vector.replicate 96 0⟩
    have hderive := hdf env (List.replicate 5 0) 1 (by decide) (by decide)
    rw [blockCipherDF_spec (A := columnFamily hout 32 hfits) .littleEndian env le_rfl hout] at hderive
    exact absurd (Option.some.inj hderive) (blockCipherDF_little hout hfits)

end CounterDrbg

end Drew.Prng
