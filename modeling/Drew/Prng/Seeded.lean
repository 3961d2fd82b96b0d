import Drew.Prng.CounterDrbg.ByteOrder
import Drew.Prng.CounterDrbg.Seeding
import Drew.Prng.HashDrbg.Standard
import Drew.Prng.HmacDrbg.Generate

/-!
# Requests and seeds

The flag and the counter of the base class over whole runs. `AddRandomData` sets the flag before it calls
`Initialize`, and what that returns is not looked at, nor what `Reseed` returns in `Stir`. So there are no errors, and
that the bytes of a request come from a seed depends on the device: on the first call, and when the counter is used up.
-/

namespace Drew.Prng

open Drew.Memory Drew.Mac Drew.Mode

open Drew.Mode.Gcm (ByteOrder)

variable {σ : Type}

/-! ## Runs -/

/-- A call, with the answers of the system. `GetBytes` gets the contents of the array that it is to fill. -/
inductive Request where
  | addRandomData (env : Env) (data : List UInt8)
  | getBytes (env : Env) (n : Nat) (data : Buf UInt8 n)

namespace Request

def reading : Request → Reading
  | .addRandomData env _ => env.reading
  | .getBytes env _ _ => env.reading

/-- The data that comes into the seed. -/
def data : Request → List UInt8
  | .addRandomData _ data => data
  | .getBytes _ _ _ => []

def isBytes : Request → Bool
  | .addRandomData _ _ => false
  | .getBytes _ _ _ => true

end Request

/-- A call that returns. -/
inductive Class.Step (v : Class σ) (d : Drbg σ) : Request → Drbg σ → Prop
  | addRandomData {env : Env} {data : List UInt8} {res : Int} {d' : Drbg σ}
      (h : v.addRandomData env data d = some (res, d')) : v.Step d (.addRandomData env data) d'
  | getBytes {env : Env} {n : Nat} {data out : Buf UInt8 n} {d' : Drbg σ}
      (h : v.getBytes env d data = some (.ok (d', out))) : v.Step d (.getBytes env n data) d'

/-- Calls, each with the state before it. -/
inductive Class.Run (v : Class σ) : Drbg σ → List (Drbg σ × Request) → Drbg σ → Prop
  | nil {d : Drbg σ} : v.Run d [] d
  | cons {d d' d'' : Drbg σ} {r : Request} {run : List (Drbg σ × Request)}
      (hstep : v.Step d r d') (hrun : v.Run d' run d'') : v.Run d ((d, r) :: run) d''

/-- The call instantiates the generator, and all bytes that it asks for are read. The number depends on the data. -/
def Instantiates (asked : Nat → Nat) (x : Drbg σ × Request) : Prop :=
  x.1.inited = false ∧ x.2.reading.Fills (asked x.2.data.length)

/-- The call seeds the generator, for the first time or again, and the read does not fail. -/
def Seeds (x : Drbg σ × Request) : Prop :=
  (x.1.inited = false ∨ x.2.isBytes = false ∨ reseedInterval ≤ x.1.rc) ∧ ¬ x.2.reading.Fails

/-- All requests come behind an instantiation, or make one, and from one seed on until the next there are at most
`reseed_interval` of them. -/
structure Seeded (asked : Nat → Nat) (run : List (Drbg σ × Request)) : Prop where
  instantiated : ∀ earlier x later, run = earlier ++ x :: later → x.2.isBytes = true →
    ∃ y ∈ earlier ++ [x], Instantiates asked y
  interval : ∀ earlier x between later, run = earlier ++ x :: between ++ later → (∀ y ∈ between, ¬ Seeds y) →
    (x :: between).countP (·.2.isBytes) ≤ reseedInterval.toNat

/-- The first call gets all bytes, and a request that finds the counter used up gets some. -/
def Supplied (asked : Nat → Nat) (x : Drbg σ × Request) : Prop :=
  (x.1.inited = false → x.2.reading.Fills (asked x.2.data.length)) ∧
    (x.1.inited = true → x.2.isBytes = true → reseedInterval ≤ x.1.rc → ¬ x.2.reading.Fails)

/-! ## What a class does to the flag and the counter -/

/-- Seeding gives an error if the device does, and otherwise starts the counter. -/
def Outcome (reading : Reading) (d : Drbg σ) (r : Except Int (Drbg σ)) : Prop :=
  (reading.Fails ∧ ∃ e, r = .error e) ∨ (¬ reading.Fails ∧ ∃ d', r = .ok d' ∧ d'.rc = 1 ∧ d'.inited = d.inited)

structure Class.Counting (v : Class σ) : Prop where
  initializeWith : ∀ {env : Env} {data : List UInt8} {d : Drbg σ} {r : Except Int (Drbg σ)},
    v.initializeWith env data d = some r → Outcome env.reading d r
  reseed : ∀ {env : Env} {data : List UInt8} {d : Drbg σ} {r : Except Int (Drbg σ)},
    v.reseed env data d = some r → Outcome env.reading d r
  generate : ∀ {env : Env} {n : Nat} {d d' : Drbg σ} {data out : Buf UInt8 n},
    v.generate env d data = some (d', out) → d'.rc = d.rc + 1 ∧ d'.inited = d.inited

/-- The counter after a seeding that may have failed. -/
def AfterSeeding (reading : Reading) (rc : UInt64) (rc' : UInt64) : Prop :=
  (reading.Fails → rc' = rc) ∧ (¬ reading.Fails → rc' = 1)

theorem Outcome.ignoring {reading : Reading} {d : Drbg σ} {r : Except Int (Drbg σ)} (h : Outcome reading d r) :
    (d.ignoring r).inited = d.inited ∧ AfterSeeding reading d.rc (d.ignoring r).rc := by
  rcases h with ⟨hf, e, rfl⟩ | ⟨hf, d', rfl, hrc, hinit⟩
  · exact ⟨rfl, fun _ => rfl, fun h => absurd hf h⟩
  · exact ⟨hinit, fun h => absurd h hf, fun _ => hrc⟩

namespace Class.Counting

variable {v : Class σ} (hv : v.Counting) {env : Env} {d d' : Drbg σ} {res : Int}

include hv

/-- There is no error, whatever the device does. -/
theorem addRandomData {data : List UInt8} (h : v.addRandomData env data d = some (res, d')) :
    res = 0 ∧ d'.inited = true ∧ AfterSeeding env.reading d.rc d'.rc := by
  unfold Class.addRandomData at h
  split at h
  · rename_i hinit
    obtain ⟨r, hr, hret⟩ := Option.bind_eq_some_iff.mp h
    cases hret
    have hout := (hv.reseed hr).ignoring
    exact ⟨rfl, hout.1.trans hinit, hout.2⟩
  · obtain ⟨r, hr, hret⟩ := Option.bind_eq_some_iff.mp h
    cases hret
    have hout := (hv.initializeWith hr).ignoring
    exact ⟨rfl, hout.1, hout.2⟩

theorem ready (h : v.ready env d = some (res, d')) :
    res = 0 ∧ d'.inited = true ∧
      if d.inited = false ∨ reseedInterval ≤ d.rc then AfterSeeding env.reading d.rc d'.rc else d'.rc = d.rc := by
  unfold Class.ready at h
  split at h
  · rename_i hinit
    rw [if_pos (Or.inl hinit)]
    exact hv.addRandomData h
  · rename_i hinit
    split at h
    · rename_i hrc
      obtain ⟨d₁, hd₁, hret⟩ := Option.bind_eq_some_iff.mp h
      cases hret
      obtain ⟨r, hr, rfl⟩ := Option.map_eq_some_iff.mp hd₁
      have hout := (hv.reseed hr).ignoring
      rw [if_pos (Or.inr hrc)]
      exact ⟨rfl, hout.1.trans (by simpa using hinit), hout.2⟩
    · rename_i hrc
      cases h
      rw [if_neg (by rintro (h | h) <;> contradiction)]
      exact ⟨rfl, by simpa using hinit, rfl⟩

theorem getBytes_ne_error {n : Nat} {data : Buf UInt8 n} (e : Int) : v.getBytes env d data ≠ some (.error e) := by
  intro h
  obtain ⟨⟨res, d₁⟩, hready, hrest⟩ := Option.bind_eq_some_iff.mp h
  obtain ⟨rfl, -, -⟩ := hv.ready hready
  simp only [Int.lt_irrefl, if_false] at hrest
  obtain ⟨r, -, hret⟩ := Option.bind_eq_some_iff.mp hrest
  cases hret

/-- What a call does: a seed starts the counter, and a request is counted. -/
theorem step_cases {r : Request} (h : v.Step d r d') :
    d'.inited = true ∧
      (Seeds (d, r) ∧ d'.rc = 1 + (if r.isBytes then 1 else 0) ∨
        ¬ Seeds (d, r) ∧ d'.rc = d.rc + (if r.isBytes then 1 else 0)) := by
  cases h with
  | @addRandomData env data res _ h =>
    obtain ⟨-, hinit, hfails, hseeds⟩ := hv.addRandomData h
    refine ⟨hinit, ?_⟩
    by_cases hf : env.reading.Fails
    · exact Or.inr ⟨fun hs => hs.2 hf, (hfails hf).trans (UInt64.add_zero _).symm⟩
    · exact Or.inl ⟨⟨Or.inr (Or.inl rfl), hf⟩, hseeds hf⟩
  | @getBytes env n data out _ h =>
    obtain ⟨⟨res, d₁⟩, hready, hrest⟩ := Option.bind_eq_some_iff.mp h
    obtain ⟨rfl, hinit, hrc⟩ := hv.ready hready
    simp only [Int.lt_irrefl, if_false] at hrest
    obtain ⟨⟨d₂, out'⟩, hgen, hret⟩ := Option.bind_eq_some_iff.mp hrest
    cases hret
    obtain ⟨hcount, hinit'⟩ := hv.generate hgen
    refine ⟨hinit'.trans hinit, ?_⟩
    rw [hcount]
    split at hrc
    · rename_i hneed
      by_cases hf : env.reading.Fails
      · exact Or.inr ⟨fun hs => hs.2 hf, congrArg (· + 1) (hrc.1 hf)⟩
      · exact Or.inl ⟨⟨hneed.imp_right Or.inr, hf⟩, congrArg (· + 1) (hrc.2 hf)⟩
    · rename_i hneed
      refine Or.inr ⟨fun hs => hneed ?_, congrArg (· + 1) hrc⟩
      rcases hs.1 with hnew | hseed | hused
      · exact Or.inl hnew
      · cases hseed
      · exact Or.inr hused

end Class.Counting

/-- The two parts of `GetBytes`. -/
theorem Class.getBytes_of_ready {v : Class σ} {env : Env} {n : Nat} {d d₁ d' : Drbg σ} {data out : Buf UInt8 n}
    (hready : v.ready env d = some (0, d₁)) (hgen : v.generate env d₁ data = some (d', out)) :
    v.getBytes env d data = some (.ok (d', out)) := by
  unfold Class.getBytes
  exact Option.bind_eq_some_iff.mpr ⟨_, hready, Option.bind_eq_some_iff.mpr ⟨_, hgen, rfl⟩⟩

/-! ## What holds in a run -/

section Runs

variable {v : Class σ} {asked : Nat → Nat} {d d' : Drbg σ} {r : Request} {calls : List (Drbg σ × Request)}

theorem Class.Run.split {l₁ l₂ : List (Drbg σ × Request)} (h : v.Run d (l₁ ++ l₂) d') :
    ∃ m, v.Run d l₁ m ∧ v.Run m l₂ d' := by
  induction l₁ generalizing d with
  | nil => exact ⟨d, .nil, h⟩
  | cons x l₁ ih =>
    cases h with
    | cons hstep hrun =>
      obtain ⟨m, h₁, h₂⟩ := ih hrun
      exact ⟨m, .cons hstep h₁, h₂⟩

/-- The counter of a generator that was seeded. -/
structure Counted (d : Drbg σ) : Prop where
  inited : d.inited = true
  pos : 0 < d.rc.toNat
  le : d.rc.toNat ≤ reseedInterval.toNat

theorem reading_of_fills {n : Nat} {reading : Reading} (h : reading.Fills n) : ¬ reading.Fails := by
  cases reading with
  | failed => exact absurd h id
  | got => exact id

theorem toNat_bump {rc : UInt64} (h : rc.toNat < 2 ^ 64 - 1) (b : Bool) :
    (rc + (if b then 1 else 0)).toNat = rc.toNat + (if b then 1 else 0) := by
  have hb : (if b then (1 : UInt64) else 0).toNat = if b then 1 else 0 := by cases b <;> rfl
  rw [UInt64.toNat_add, hb, Nat.mod_eq_of_lt]
  cases b <;> simp <;> omega

/-- One call. Without a seed it only counts. -/
theorem Counted.step (hv : v.Counting) (hstep : v.Step d r d') (hs : Supplied asked (d, r))
    (hd : d.inited = false ∨ Counted d) :
    Counted d' ∧ (¬ Seeds (d, r) → Counted d ∧ d'.rc.toNat = d.rc.toNat + if r.isBytes then 1 else 0) := by
  have hinterval : reseedInterval.toNat = 1024 := rfl
  obtain ⟨hinit, ⟨hseeds, hrc⟩ | ⟨hseeds, hrc⟩⟩ := hv.step_cases hstep
  · have hone : d'.rc.toNat = 1 + if r.isBytes then 1 else 0 := by
      rw [hrc]
      exact toNat_bump (by decide) r.isBytes
    refine ⟨⟨hinit, ?_, ?_⟩, fun h => absurd hseeds h⟩
    · omega
    · split at hone <;> omega
  · have hcounted : Counted d := by
      rcases hd with hnew | hcounted
      · exact absurd ⟨Or.inl hnew, reading_of_fills (hs.1 hnew)⟩ hseeds
      · exact hcounted
    have hle := hcounted.le
    have hnext : d'.rc.toNat = d.rc.toNat + if r.isBytes then 1 else 0 := by
      rw [hrc]
      exact toNat_bump (by omega) r.isBytes
    refine ⟨⟨hinit, ?_, ?_⟩, fun _ => ⟨hcounted, hnext⟩⟩
    · have hpos := hcounted.pos
      omega
    · by_cases hb : r.isBytes = true
      · -- Otherwise the counter would be used up, and the call would seed.
        have hlt : d.rc.toNat < reseedInterval.toNat := by
          by_contra hge
          have hused : reseedInterval ≤ d.rc := UInt64.le_iff_toNat_le.mpr (Nat.le_of_not_lt hge)
          exact hseeds ⟨Or.inr (Or.inr hused), hs.2 hcounted.inited hb hused⟩
        rw [if_pos hb] at hnext
        omega
      · rw [if_neg hb] at hnext
        omega

theorem Counted.run (hv : v.Counting) (hrun : v.Run d calls d') (hs : ∀ x ∈ calls, Supplied asked x)
    (hd : d.inited = false ∨ Counted d) : d'.inited = false ∨ Counted d' := by
  induction hrun with
  | nil => exact hd
  | cons hstep hrest ih =>
    refine ih (fun x hx => hs x (List.mem_cons_of_mem _ hx)) (Or.inr ?_)
    exact (Counted.step hv hstep (hs _ (List.mem_cons_self ..)) hd).1

/-- Calls that do not seed. -/
theorem Counted.between (hv : v.Counting) (hrun : v.Run d calls d') (hs : ∀ x ∈ calls, Supplied asked x)
    (hno : ∀ x ∈ calls, ¬ Seeds x) (hd : Counted d) :
    Counted d' ∧ d'.rc.toNat = d.rc.toNat + calls.countP (·.2.isBytes) := by
  induction hrun with
  | nil => exact ⟨hd, rfl⟩
  | @cons d d' d'' r rest hstep hrest ih =>
    obtain ⟨hd', hnext⟩ := Counted.step hv hstep (hs _ (List.mem_cons_self ..)) (Or.inr hd)
    obtain ⟨hd'', hcount⟩ := ih (fun x hx => hs x (List.mem_cons_of_mem _ hx))
      (fun x hx => hno x (List.mem_cons_of_mem _ hx)) hd'
    refine ⟨hd'', ?_⟩
    rw [hcount, (hnext (hno _ (List.mem_cons_self ..))).2, List.countP_cons, Nat.add_right_comm, Nat.add_assoc]

/-- Where the device gives what is needed, requests are served from seeds. -/
theorem seeded_of_supplied (hv : v.Counting) (hnew : d.inited = false) (hrun : v.Run d calls d')
    (hs : ∀ x ∈ calls, Supplied asked x) : Seeded asked calls where
  instantiated := by
    rintro earlier x later rfl -
    -- The first call of the run instantiates.
    have hfirst : ∀ y ys, earlier ++ [x] = y :: ys → Instantiates asked y := by
      intro y ys hy
      have hall : earlier ++ x :: later = y :: (ys ++ later) := by
        rw [← List.cons_append, ← hy, List.append_assoc, List.singleton_append]
      rw [hall] at hrun hs
      cases hrun with
      | cons hstep hrest => exact ⟨hnew, (hs _ (List.mem_cons_self ..)).1 hnew⟩
    cases hall : earlier ++ [x] with
    | nil => exact absurd hall (by simp)
    | cons y ys => exact ⟨y, List.mem_cons_self .., hfirst y ys hall⟩
  interval := by
    rintro earlier x between later rfl hno
    obtain ⟨m, hbefore, hlater⟩ := hrun.split
    obtain ⟨m₁, hearlier, hwindow⟩ := hbefore.split
    have hsub : ∀ y ∈ x :: between, Supplied asked y := fun y hy =>
      hs y (List.mem_append_left _ (List.mem_append_right _ hy))
    cases hwindow with
    | @cons _ d₁ _ r _ hstep hrest =>
      have hm₁ := Counted.run hv hearlier
        (fun y hy => hs y (List.mem_append_left _ (List.mem_append_left _ hy))) (Or.inl hnew)
      obtain ⟨hd₁, -⟩ := Counted.step hv hstep (hsub _ (List.mem_cons_self ..)) hm₁
      obtain ⟨hm, hcount⟩ := Counted.between hv hrest (fun y hy => hsub y (List.mem_cons_of_mem _ hy)) hno hd₁
      have hle := hm.le
      have hpos := hd₁.pos
      rw [List.countP_cons]
      split <;> omega

end Runs

/-! ## The classes -/

/-- The device fails where `RandomDevice::GetBytes` does. -/
theorem Reading.getBytes_cases {m : Nat} {reading : Reading} {buf : Buf UInt8 m} {off n : Nat}
    {r : Except Int (Nat × Buf UInt8 m)} (h : reading.getBytes buf off n = some r) :
    (reading.Fails ∧ ∃ e, r = .error e) ∨ (¬ reading.Fails ∧ ∃ x, r = .ok x) := by
  cases reading with
  | failed errno pos =>
    cases h
    exact Or.inl ⟨trivial, _, rfl⟩
  | got bytes =>
    obtain ⟨w, -, hret⟩ := Option.bind_eq_some_iff.mp h
    cases hret
    exact Or.inr ⟨id, _, rfl⟩

namespace HashDrbg

variable {A : HashAlgorithm} {order : ByteOrder} {env : Env} {data : List UInt8}

/-- The bytes that `Initialize` asks for. -/
def asked (A : HashAlgorithm) (_ : Nat) : Nat := seedLength A.blksize

theorem seed_counts {m off : Nat} {buf : Buf UInt8 m} {d d' : Drbg (HashDrbg A)}
    (h : seed order buf off d = some d') : d'.rc = 1 ∧ d'.inited = d.inited := by
  obtain ⟨inp, -, h⟩ := Option.bind_eq_some_iff.mp h
  obtain ⟨V, -, h⟩ := Option.bind_eq_some_iff.mp h
  obtain ⟨b₁, -, h⟩ := Option.bind_eq_some_iff.mp h
  obtain ⟨v, -, h⟩ := Option.bind_eq_some_iff.mp h
  obtain ⟨b₂, -, h⟩ := Option.bind_eq_some_iff.mp h
  obtain ⟨inp', -, h⟩ := Option.bind_eq_some_iff.mp h
  obtain ⟨C, -, h⟩ := Option.bind_eq_some_iff.mp h
  cases h
  exact ⟨rfl, rfl⟩

theorem counting (order : ByteOrder) (A : HashAlgorithm) : (table order A).Counting where
  initializeWith := by
    intro env data d r h
    obtain ⟨res, hread, h⟩ := Option.bind_eq_some_iff.mp h
    rcases Reading.getBytes_cases hread with ⟨hf, e, rfl⟩ | ⟨hf, ⟨len, buf⟩, rfl⟩
    · cases h
      exact Or.inl ⟨hf, e, rfl⟩
    · obtain ⟨b₁, -, h⟩ := Option.bind_eq_some_iff.mp h
      obtain ⟨⟨perslen, b₂⟩, -, h⟩ := Option.bind_eq_some_iff.mp h
      obtain ⟨d', hseed, h⟩ := Option.bind_eq_some_iff.mp h
      cases h
      exact Or.inr ⟨hf, d', rfl, seed_counts hseed⟩
  reseed := by
    intro env data d r h
    obtain ⟨b₁, -, h⟩ := Option.bind_eq_some_iff.mp h
    obtain ⟨v, -, h⟩ := Option.bind_eq_some_iff.mp h
    obtain ⟨b₂, -, h⟩ := Option.bind_eq_some_iff.mp h
    obtain ⟨res, hread, h⟩ := Option.bind_eq_some_iff.mp h
    rcases Reading.getBytes_cases hread with ⟨hf, e, rfl⟩ | ⟨hf, ⟨len, buf⟩, rfl⟩
    · cases h
      exact Or.inl ⟨hf, e, rfl⟩
    · obtain ⟨b₃, -, h⟩ := Option.bind_eq_some_iff.mp h
      obtain ⟨d', hseed, h⟩ := Option.bind_eq_some_iff.mp h
      cases h
      exact Or.inr ⟨hf, d', rfl, seed_counts hseed⟩
  generate := by
    intro env n d d' data out h
    obtain ⟨out', -, h⟩ := Option.bind_eq_some_iff.mp h
    obtain ⟨v, -, h⟩ := Option.bind_eq_some_iff.mp h
    obtain ⟨buf, -, h⟩ := Option.bind_eq_some_iff.mp h
    obtain ⟨V₁, -, h⟩ := Option.bind_eq_some_iff.mp h
    obtain ⟨V₂, -, h⟩ := Option.bind_eq_some_iff.mp h
    obtain ⟨buf', -, h⟩ := Option.bind_eq_some_iff.mp h
    obtain ⟨V₃, -, h⟩ := Option.bind_eq_some_iff.mp h
    cases h
    exact ⟨rfl, rfl⟩

end HashDrbg

namespace CounterDrbg

/-- The bytes that `Initialize` asks for, with a nonce of `len` bytes. -/
def asked (A : CounterCipher) (len : Nat) : Nat :=
  ctrBufferSize - min len (ctrBufferSize - (A.seedlen / 2 + 96)) - 96

theorem counting (order : ByteOrder) (A : CounterCipher) : (table A order).Counting where
  initializeWith := by
    intro env data d r h
    obtain ⟨res, hread, h⟩ := Option.bind_eq_some_iff.mp h
    rcases Reading.getBytes_cases hread with ⟨hf, e, rfl⟩ | ⟨hf, ⟨len, buf⟩, rfl⟩
    · cases h
      exact Or.inl ⟨hf, e, rfl⟩
    · obtain ⟨nonce, -, h⟩ := Option.bind_eq_some_iff.mp h
      obtain ⟨b₁, -, h⟩ := Option.bind_eq_some_iff.mp h
      obtain ⟨⟨nbytes, b₂⟩, -, h⟩ := Option.bind_eq_some_iff.mp h
      obtain ⟨b₃, -, h⟩ := Option.bind_eq_some_iff.mp h
      obtain ⟨sub, -, h⟩ := Option.bind_eq_some_iff.mp h
      obtain ⟨sub', -, h⟩ := Option.bind_eq_some_iff.mp h
      cases h
      exact Or.inr ⟨hf, _, rfl, rfl, rfl⟩
  reseed := by
    intro env data d r h
    obtain ⟨res, hread, h⟩ := Option.bind_eq_some_iff.mp h
    rcases Reading.getBytes_cases hread with ⟨hf, e, rfl⟩ | ⟨hf, ⟨len, buf⟩, rfl⟩
    · cases h
      exact Or.inl ⟨hf, e, rfl⟩
    · obtain ⟨nonce, -, h⟩ := Option.bind_eq_some_iff.mp h
      obtain ⟨b₁, -, h⟩ := Option.bind_eq_some_iff.mp h
      obtain ⟨b₂, -, h⟩ := Option.bind_eq_some_iff.mp h
      obtain ⟨sub, -, h⟩ := Option.bind_eq_some_iff.mp h
      cases h
      exact Or.inr ⟨hf, _, rfl, rfl, rfl⟩
  generate := by
    intro env n d d' data out h
    obtain ⟨input, -, h⟩ := Option.bind_eq_some_iff.mp h
    obtain ⟨sub, -, h⟩ := Option.bind_eq_some_iff.mp h
    obtain ⟨⟨ctr, bytes⟩, -, h⟩ := Option.bind_eq_some_iff.mp h
    obtain ⟨out', -, h⟩ := Option.bind_eq_some_iff.mp h
    obtain ⟨sub', -, h⟩ := Option.bind_eq_some_iff.mp h
    cases h
    exact ⟨rfl, rfl⟩

/-- A request is served in every state, also without a seed. -/
theorem exists_generate {A : CounterCipher} {d : Drbg CounterDrbg} (h : Attached A d.sub.ctr)
    (hsize : A.blksize ≤ 32) (env : Env) {n : Nat} (data : Buf UInt8 n) :
    ∃ d' out, generate A env d data = some (d', out) := by
  obtain ⟨buf, hbuf⟩ := Buf.exists_write_at (Vector.replicate ctrBufferSize (0 : UInt8)) 0
    (data.toList.take (min ctrBufferSize n)) (by
      rw [List.length_take]
      omega)
  obtain ⟨sub, hupdate, hsub⟩ := update_spec h hsize env buf A.fits
  obtain ⟨ctr, bytes, henc, hlen, hctr⟩ := encrypt_spec hsub hsize (List.replicate n 0)
  rw [List.length_replicate] at hlen
  obtain ⟨out, hout⟩ := Buf.exists_write_at data 0 bytes (by omega)
  obtain ⟨sub', hupdate', -⟩ := update_spec (d := { sub with ctr := ctr }) hctr hsize env buf A.fits
  refine ⟨{ d with sub := sub', rc := d.rc + 1 }, out, ?_⟩
  simp only [generate, hbuf, hupdate, henc, hout, hupdate', Option.bind_eq_bind, Option.bind_some, pure]

theorem ready_unseeded (order : ByteOrder) (A : CounterCipher) (rc : UInt64) {env : Env} (hf : env.reading.Fails) :
    (table A order).ready env (new A rc) = some (0, { new A rc with inited := true }) := by
  obtain ⟨e, hinit⟩ := initializeWith_failed A order [] hf { new A rc with inited := true }
  have hinit' : (table A order).initializeWith env [] { new A rc with inited := true } = some (.error e) := hinit
  have hnew : (new A rc).inited = false := rfl
  simp only [Class.ready, Class.drbgInitialize, Class.addRandomData, hnew, if_true, Bool.false_eq_true, if_false,
    hinit', Option.bind_eq_bind, Option.bind_some, pure]
  rfl

/-- If the device fails at the first request, it is served all the same. -/
theorem getBytes_unseeded (order : ByteOrder) (A : CounterCipher) (hsize : A.blksize ≤ 32) (rc : UInt64) {env : Env}
    (hf : env.reading.Fails) {n : Nat} (data : Buf UInt8 n) :
    ∃ d' out, (table A order).getBytes env (new A rc) data = some (.ok (d', out)) := by
  obtain ⟨d', out, hgen⟩ := exists_generate (d := { new A rc with inited := true }) (new_attached A rc) hsize env data
  exact ⟨d', out, Class.getBytes_of_ready (ready_unseeded order A rc hf) hgen⟩

/-- If it gives bytes, the request is served from a seed. -/
theorem getBytes_seeded (order : ByteOrder) (A : CounterCipher) (hsize : A.blksize ≤ 32) (h4 : 4 ≤ A.blksize)
    (hkey : A.keylen ≤ 32) (rc : UInt64) {env : Env} (hf : ¬ env.reading.Fails) {n : Nat} (data : Buf UInt8 n) :
    ∃ d' out, (table A order).getBytes env (new A rc) data = some (.ok (d', out)) := by
  have hatt : Attached A ({ new A rc with inited := true } : Drbg CounterDrbg).sub.ctr := new_attached A rc
  have hsome : (initializeWith A order env [] { new A rc with inited := true }).isSome :=
    (initializeWith_isSome_iff hkey h4 hatt).mpr (Or.inr hsize)
  obtain ⟨r, hinit⟩ := Option.isSome_iff_exists.mp hsome
  rcases (counting order A).initializeWith hinit with ⟨hfails, -⟩ | ⟨-, d₁, rfl, -, -⟩
  · exact absurd hfails hf
  obtain ⟨d', out, hgen⟩ := exists_generate (initializeWith_attached hatt hinit) hsize env data
  have hready : (table A order).ready env (new A rc) = some (0, d₁) := by
    have hinit' : (table A order).initializeWith env [] { new A rc with inited := true } = some (.ok d₁) := hinit
    have hnew : (new A rc).inited = false := rfl
    simp only [Class.ready, Class.drbgInitialize, Class.addRandomData, hnew, if_true, Bool.false_eq_true, if_false,
      hinit', Option.bind_eq_bind, Option.bind_some, pure]
    rfl
  exact ⟨d', out, Class.getBytes_of_ready hready hgen⟩

end CounterDrbg

namespace HmacDrbg

/-- The bytes that `Initialize` asks for. -/
def asked (A : HashAlgorithm) (_ : Nat) : Nat := A.size

theorem counting (A : HashAlgorithm) : (table A).Counting where
  initializeWith := by
    intro env data d r h
    obtain ⟨res, hread, h⟩ := Option.bind_eq_some_iff.mp h
    rcases Reading.getBytes_cases hread with ⟨hf, e, rfl⟩ | ⟨hf, ⟨len, buf⟩, rfl⟩
    · cases h
      exact Or.inl ⟨hf, e, rfl⟩
    · obtain ⟨entropy, -, h⟩ := Option.bind_eq_some_iff.mp h
      obtain ⟨⟨nbytes, b₁⟩, -, h⟩ := Option.bind_eq_some_iff.mp h
      obtain ⟨ps, -, h⟩ := Option.bind_eq_some_iff.mp h
      obtain ⟨c₁, -, h⟩ := Option.bind_eq_some_iff.mp h
      obtain ⟨c₂, -, h⟩ := Option.bind_eq_some_iff.mp h
      obtain ⟨sub, -, h⟩ := Option.bind_eq_some_iff.mp h
      cases h
      exact Or.inr ⟨hf, _, rfl, rfl, rfl⟩
  reseed := by
    intro env data d r h
    obtain ⟨res, hread, h⟩ := Option.bind_eq_some_iff.mp h
    rcases Reading.getBytes_cases hread with ⟨hf, e, rfl⟩ | ⟨hf, ⟨len, buf⟩, rfl⟩
    · cases h
      exact Or.inl ⟨hf, e, rfl⟩
    · obtain ⟨entropy, -, h⟩ := Option.bind_eq_some_iff.mp h
      obtain ⟨sub, -, h⟩ := Option.bind_eq_some_iff.mp h
      cases h
      exact Or.inr ⟨hf, _, rfl, rfl, rfl⟩
  generate := by
    intro env n d d' data out h
    have hrest : ∀ sub : HmacDrbg A, ((List.range ((n + (A.size - 1)) / A.size)).foldlM (round (env.array 256))
        (sub, data)).bind (fun x => (update env [x.2.toList] x.1).bind fun sub =>
          some ({ d with sub := sub, rc := d.rc + 1 }, x.2)) = some (d', out) →
        d'.rc = d.rc + 1 ∧ d'.inited = d.inited := by
      intro sub h
      obtain ⟨⟨sub', out'⟩, -, h⟩ := Option.bind_eq_some_iff.mp h
      obtain ⟨sub'', -, h⟩ := Option.bind_eq_some_iff.mp h
      cases h
      exact ⟨rfl, rfl⟩
    have hgen : generate env d data = some (d', out) := h
    dsimp only [generate] at hgen
    split at hgen
    · obtain ⟨sub, -, hgen⟩ := Option.bind_eq_some_iff.mp hgen
      exact hrest sub hgen
    · obtain ⟨sub, -, hgen⟩ := Option.bind_eq_some_iff.mp hgen
      exact hrest sub hgen

/-- `init` leaves the flag unset. -/
theorem inited_init {A : HashAlgorithm} {algo : A.Ctx} {V : Buf UInt8 A.size} {rc : UInt64}
    {d : Drbg (HmacDrbg A)} (h : init algo V rc = .ok d) : d.inited = false := by
  unfold init at h
  cases hinit : Hmac.init algo 0 with
  | error e =>
    rw [hinit] at h
    cases h
  | ok c =>
    rw [hinit] at h
    simp only [bind, Except.bind] at h
    split at h
    · cases h
    · cases h
      rfl

end HmacDrbg

/-! ## Requests -/

/-- All runs of a generator whose calls the device supplies are served from seeds. -/
def SeededIfSupplied (v : Class σ) (asked : Nat → Nat) (d : Drbg σ) : Prop :=
  ∀ (run : List (Drbg σ × Request)) (d' : Drbg σ), v.Run d run d' → (∀ x ∈ run, Supplied asked x) →
    Seeded asked run

/-- The three generators, from whatever their memory had. -/
theorem requests_seeded (order : ByteOrder) :
    (∀ (A : HashAlgorithm) (h : A.Ctx) (V C : Buf UInt8 128) (rc : UInt64),
      SeededIfSupplied (HashDrbg.table order A) (HashDrbg.asked A) (HashDrbg.new h V C rc)) ∧
    (∀ (A : CounterCipher) (rc : UInt64),
      SeededIfSupplied (CounterDrbg.table A order) (CounterDrbg.asked A) (CounterDrbg.new A rc)) ∧
    ∀ (A : HashAlgorithm) (algo : A.Ctx) (V : Buf UInt8 A.size) (rc : UInt64) (d : Drbg (HmacDrbg A)),
      HmacDrbg.init algo V rc = .ok d → SeededIfSupplied (HmacDrbg.table A) (HmacDrbg.asked A) d := by
  refine ⟨fun A h V C rc run d' hrun hs => ?_, fun A rc run d' hrun hs => ?_, fun A algo V rc d hd run d' hrun hs => ?_⟩
  · exact seeded_of_supplied (HashDrbg.counting order A) rfl hrun hs
  · exact seeded_of_supplied (CounterDrbg.counting order A) rfl hrun hs
  · exact seeded_of_supplied (HmacDrbg.counting A) (HmacDrbg.inited_init hd) hrun hs

/-- A cipher with the sizes of AES with keys of 32 bytes. -/
abbrev aesSizes : CounterCipher := CounterDrbg.columnFamily (show 3 < 16 by decide) 32 (by decide)

/-- A device that gives as many bytes as are needed. -/
def plenty : Env := ⟨.got (List.replicate 416 7), fun _ => 0, Vector.replicate 96 0⟩

/-- The first request, with the sizes of AES with keys of 32 bytes, and any generator with the sizes of SHA-256. -/
theorem requests_seeded_first :
    (∃ d' out, (CounterDrbg.table aesSizes .bigEndian).getBytes plenty (CounterDrbg.new aesSizes 0)
        (Vector.replicate 16 0) = some (.ok (d', out)) ∧
      Seeded (CounterDrbg.asked aesSizes)
        [(CounterDrbg.new aesSizes 0, .getBytes plenty 16 (Vector.replicate 16 0))]) ∧
    ∃ d, HmacDrbg.init (A := HashDrbg.secondByte 64 Memory.pos_32) ([] : List UInt8) (Vector.replicate 32 0) 0 = .ok d ∧
      SeededIfSupplied (HmacDrbg.table (HashDrbg.secondByte 64 Memory.pos_32))
        (HmacDrbg.asked (HashDrbg.secondByte 64 Memory.pos_32)) d := by
  constructor
  · obtain ⟨d', out, hrun⟩ := CounterDrbg.getBytes_seeded .bigEndian aesSizes (show 16 ≤ 32 by decide)
      (show 4 ≤ 16 by decide) (show 32 ≤ 32 by decide) 0 (show ¬ plenty.reading.Fails from id) (Vector.replicate 16 0)
    refine ⟨d', out, hrun, (requests_seeded .bigEndian).2.1 _ 0 _ d' (.cons (.getBytes hrun) .nil) ?_⟩
    intro x hx
    obtain rfl := List.mem_singleton.mp hx
    refine ⟨fun _ => ?_, fun hinit => absurd hinit Bool.false_ne_true⟩
    show CounterDrbg.asked _ 0 ≤ (List.replicate 416 (7 : UInt8)).length
    rw [List.length_replicate]
    decide
  · obtain ⟨d, hd⟩ : ∃ d, HmacDrbg.init (A := HashDrbg.secondByte 64 Memory.pos_32) ([] : List UInt8)
      (Vector.replicate 32 0) 0 = .ok d := ⟨_, rfl⟩
    exact ⟨d, hd, (requests_seeded .bigEndian).2.2 _ _ _ 0 d hd⟩

/-- A device that cannot be read. -/
def unreadable : Env := ⟨.failed 5 (by decide), fun _ => 0, Vector.replicate 96 0⟩

/-- The sizes of AES with keys of 32 bytes. The only request is served without a seed. -/
theorem request_unseeded :
    ¬ ∀ (run : List (Drbg CounterDrbg × Request)) (d' : Drbg CounterDrbg),
      (CounterDrbg.table aesSizes .littleEndian).Run (CounterDrbg.new aesSizes 0) run d' →
      Seeded (CounterDrbg.asked aesSizes) run := by
  intro h
  obtain ⟨d', out, hrun⟩ := CounterDrbg.getBytes_unseeded .littleEndian aesSizes (show 16 ≤ 32 by decide) 0
    (show unreadable.reading.Fails from trivial) (Vector.replicate 16 0)
  obtain ⟨y, hy, hinst⟩ := (h _ d' (.cons (.getBytes hrun) .nil)).instantiated [] _ [] rfl rfl
  obtain rfl := List.mem_singleton.mp hy
  exact hinst.2

end Drew.Prng
