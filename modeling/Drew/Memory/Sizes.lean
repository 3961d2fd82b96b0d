import Mathlib.Tactic

/-!
# Sizes of arrays

The sizes of the arrays are not zero, so that an array can be read at an index modulo its size.
-/

namespace Drew.Memory

instance neZero_2 : NeZero 2 := ⟨by decide⟩

instance neZero_3 : NeZero 3 := ⟨by decide⟩

instance neZero_4 : NeZero 4 := ⟨by decide⟩

instance neZero_5 : NeZero 5 := ⟨by decide⟩

instance neZero_6 : NeZero 6 := ⟨by decide⟩

instance neZero_7 : NeZero 7 := ⟨by decide⟩

instance neZero_8 : NeZero 8 := ⟨by decide⟩

instance neZero_9 : NeZero 9 := ⟨by decide⟩

instance neZero_10 : NeZero 10 := ⟨by decide⟩

instance neZero_11 : NeZero 11 := ⟨by decide⟩

instance neZero_12 : NeZero 12 := ⟨by decide⟩

instance neZero_14 : NeZero 14 := ⟨by decide⟩

instance neZero_15 : NeZero 15 := ⟨by decide⟩

instance neZero_16 : NeZero 16 := ⟨by decide⟩

instance neZero_17 : NeZero 17 := ⟨by decide⟩

instance neZero_18 : NeZero 18 := ⟨by decide⟩

instance neZero_19 : NeZero 19 := ⟨by decide⟩

instance neZero_20 : NeZero 20 := ⟨by decide⟩

instance neZero_22 : NeZero 22 := ⟨by decide⟩

instance neZero_24 : NeZero 24 := ⟨by decide⟩

instance neZero_25 : NeZero 25 := ⟨by decide⟩

instance neZero_32 : NeZero 32 := ⟨by decide⟩

instance neZero_33 : NeZero 33 := ⟨by decide⟩

instance neZero_40 : NeZero 40 := ⟨by decide⟩

instance neZero_48 : NeZero 48 := ⟨by decide⟩

instance neZero_50 : NeZero 50 := ⟨by decide⟩

instance neZero_56 : NeZero 56 := ⟨by decide⟩

instance neZero_64 : NeZero 64 := ⟨by decide⟩

instance neZero_72 : NeZero 72 := ⟨by decide⟩

instance neZero_80 : NeZero 80 := ⟨by decide⟩

instance neZero_96 : NeZero 96 := ⟨by decide⟩

instance neZero_128 : NeZero 128 := ⟨by decide⟩

instance neZero_140 : NeZero 140 := ⟨by decide⟩

instance neZero_192 : NeZero 192 := ⟨by decide⟩

instance neZero_256 : NeZero 256 := ⟨by decide⟩

instance neZero_480 : NeZero 480 := ⟨by decide⟩

instance neZero_512 : NeZero 512 := ⟨by decide⟩

instance neZero_1024 : NeZero 1024 := ⟨by decide⟩

end Drew.Memory
