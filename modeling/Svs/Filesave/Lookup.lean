import Svs.Filesave.SignatureTable

/-!
# Looking up a block

A bucket of the table is ordered by strong hash, so its lower bound finds an entry with a given strong
hash if there is one. As long as BLAKE3 tells the windows of the content from the blocks of the parent,
both hashes of a window together find exactly the blocks it is equal to.
-/

namespace Svs

open Library Library.Blocks

variable {σ : Type} {env : Env σ}

/-- The order of `std::lower_bound` is the one of the bytes. -/
theorem Filehash.eq_of_not_lt {a b : Filehash} (hab : ¬ a.lt b) (hba : ¬ b.lt a) : a = b := by
  unfold Filehash.lt at hab hba
  rcases lt_trichotomy (a.raw.map UInt8.toNat) (b.raw.map UInt8.toNat) with h | h | h
  · exact absurd h hab
  · have hraw : a.raw = b.raw := List.map_injective_iff.mpr (fun x y => UInt8.toNat_inj.mp) h
    cases a
    cases b
    cases hraw
    rfl
  · exact absurd h hba

theorem Filehash.not_lt_self (a : Filehash) : ¬ a.lt a := by
  unfold Filehash.lt
  exact lt_irrefl _

namespace Filesave

variable {signature : UInt32 → List Keyvalue} {hsh : UInt32} {fh : Filehash} {i : Nat}

/-- What is found is in the bucket. -/
theorem lookup_some (h : lookup signature hsh fh = some i) : ⟨fh, i⟩ ∈ signature hsh := by
  unfold lookup lowerBound at h
  split at h
  · cases h
  · rename_i kv hkv
    split at h
    · rename_i hkey
      cases h
      cases hkey
      exact List.mem_of_find?_eq_some hkv
    · cases h

/-- In an ordered bucket nothing is overlooked. -/
theorem lookup_none (hsorted : (signature hsh).Pairwise fun x y => ¬ y.key.lt x.key)
    (h : lookup signature hsh fh = none) : ∀ kv ∈ signature hsh, kv.key ≠ fh := by
  rintro kv hkv rfl
  obtain ⟨x, hx⟩ := Option.isSome_iff_exists.mp (List.find?_isSome.mpr ⟨kv, hkv, by
    simpa using Filehash.not_lt_self kv.key⟩ :
      ((signature hsh).find? fun x => !decide (x.key.lt kv.key)).isSome = true)
  obtain ⟨hnot, as, bs, hsplit, hbefore⟩ := List.find?_eq_some_iff_append.mp hx
  have hnot : ¬ x.key.lt kv.key := by simpa using hnot
  -- the lower bound comes no later than the entry looked for
  have hkey : x.key = kv.key := by
    rw [hsplit] at hkv hsorted
    rcases List.mem_append.mp hkv with has | hxbs
    · have := hbefore kv has
      have := Filehash.not_lt_self kv.key
      grind
    · rcases List.mem_cons.mp hxbs with rfl | hbs
      · rfl
      · have hle := (List.pairwise_cons.mp (List.pairwise_append.mp hsorted).2.1).1 kv hbs
        exact Filehash.eq_of_not_lt hnot hle
  unfold lookup lowerBound at h
  rw [hx] at h
  simp [hkey] at h

/-! ## The table of a parent -/

theorem mem_bucket_blockEntries {bsnt : Nat} {w : Bytes} {kv : Keyvalue} :
    kv ∈ bucket (blockEntries env bsnt w) hsh ↔ kv.value < w.length / bsnt ∧
      weakHash (ByteFile.slice w (kv.value * bsnt) bsnt) = hsh ∧
      kv.key = env.blake3 (ByteFile.slice w (kv.value * bsnt) bsnt) := by
  unfold bucket blockEntries
  simp only [List.mem_map, List.mem_filter, List.mem_range, beq_iff_eq]
  constructor
  · rintro ⟨_, ⟨⟨i, hi, rfl⟩, rfl⟩, rfl⟩
    exact ⟨hi, rfl, rfl⟩
  · rintro ⟨hi, rfl, hkey⟩
    refine ⟨_, ⟨⟨kv.value, hi, rfl⟩, rfl⟩, ?_⟩
    rw [← hkey]

/-- BLAKE3 tells the windows of a content from the blocks of `parent`. -/
def TellsApart (env : Env σ) (bsnt : Nat) (parent content : Bytes) : Prop :=
  ∀ x ∈ blocks bsnt parent, ∀ y, y <:+: content → y.length = bsnt → env.blake3 x = env.blake3 y → x = y

variable {bsnt : Nat} {parent content y : Bytes} {f : Filesave σ}

/-- What is found is a block equal to the window. -/
theorem KnowsSignature.found (h : KnowsSignature env bsnt parent f)
    (hblake : TellsApart env bsnt parent content) (hy : y <:+: content) (hlen : y.length = bsnt)
    (hfind : lookup f.signature (weakHash y) (env.blake3 y) = some i) :
    i < parent.length / bsnt ∧ ByteFile.slice parent (i * bsnt) bsnt = y := by
  obtain ⟨hi, -, hkey⟩ := mem_bucket_blockEntries.mp ((h.table _).mem_iff.mp (lookup_some hfind))
  exact ⟨hi, hblake _ (List.mem_of_getElem? (getElem?_blocks hi)) y hy hlen hkey.symm⟩

/-- A window that is not found is no block. -/
theorem KnowsSignature.not_found (h : KnowsSignature env bsnt parent f)
    (hfind : lookup f.signature (weakHash y) (env.blake3 y) = none) : y ∉ blocks bsnt parent := by
  intro hy
  obtain ⟨i, hi, rfl⟩ := List.mem_map.mp hy
  have hmem := (h.table _).mem_iff.mpr (mem_bucket_blockEntries.mpr
    (show (⟨env.blake3 (ByteFile.slice parent (i * bsnt) bsnt), i⟩ : Keyvalue).value < _ ∧ _ from
      ⟨List.mem_range.mp hi, rfl, rfl⟩))
  exact lookup_none (h.sorted _) hfind _ hmem rfl

end Filesave

end Svs
