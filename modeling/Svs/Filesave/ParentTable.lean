import Svs.Filesave.Opened

/-!
# The table of a parent's signature

The constructor reads the entries one behind the other and sorts every bucket. The table it arrives at
is the list of the entries, split by weak hash.
-/

namespace Svs.Filesave

open Library

variable {σ : Type} (env : Env σ)

/-- The entry at index `i`, as the table keeps it. -/
def entryAt (store : Bytes) (i : Nat) : Option (UInt32 × Keyvalue) :=
  (signatureEntry store i).map fun e => (e.1, ⟨e.2, i⟩)

/-- The bucket of a weak hash, in the order of the entries. -/
def bucket (es : List (UInt32 × Keyvalue)) (ph : UInt32) : List Keyvalue :=
  (es.filter fun e => e.1 == ph).map Prod.snd

theorem emplaceBack_apply (table : UInt32 → List Keyvalue) (e : UInt32 × Keyvalue) (ph : UInt32) :
    emplaceBack table e.1 e.2 ph = table ph ++ bucket [e] ph := by
  unfold emplaceBack bucket
  by_cases h : ph = e.1
  · simp [h]
  · have : (e.1 == ph) = false := by simpa using Ne.symm h
    simp [h, this]

theorem bucket_append (es fs : List (UInt32 × Keyvalue)) (ph : UInt32) :
    bucket (es ++ fs) ph = bucket es ph ++ bucket fs ph := by
  simp [bucket]

theorem foldlM_emplaceBack (store : Bytes) (l : List Nat) (table : UInt32 → List Keyvalue) :
    l.foldlM (fun table i => (signatureEntry store i).map fun e => emplaceBack table e.1 ⟨e.2, i⟩)
        table =
      (l.mapM (entryAt store)).map fun es ph => table ph ++ bucket es ph := by
  induction l generalizing table with
  | nil => simp [bucket]
  | cons i l ih =>
    rw [List.foldlM_cons, List.mapM_cons]
    cases he : signatureEntry store i with
    | none => simp [entryAt, he]
    | some e =>
      have hstep : ∀ ph, emplaceBack table e.1 ⟨e.2, i⟩ ph = table ph ++ bucket [(e.1, ⟨e.2, i⟩)] ph :=
        emplaceBack_apply table (e.1, ⟨e.2, i⟩)
      simp only [entryAt, he, Option.map_some, Option.bind_eq_bind, Option.bind_some]
      rw [ih]
      cases l.mapM (entryAt store) with
      | none => rfl
      | some es =>
        refine congrArg some (funext fun ph => ?_)
        dsimp only
        rw [hstep, List.append_assoc, ← bucket_append]
        rfl

/-- The table of the first `k` entries. -/
theorem readSignature_eq (store : Bytes) (k : Nat) :
    readSignature env store k = ((List.range k).mapM (entryAt store)).map fun es ph =>
      env.sort.apply (bucket es ph) := by
  rw [readSignature, foldlM_emplaceBack, Option.map_map]
  rfl

theorem mem_of_mapM {α β : Type} {f : α → Option β} {l : List α} {bs : List β}
    (h : l.mapM f = some bs) : ∀ b ∈ bs, ∃ a ∈ l, f a = some b := by
  induction l generalizing bs with
  | nil =>
    cases h
    simp
  | cons a l ih =>
    rw [List.mapM_cons] at h
    obtain ⟨b, hb, h⟩ := Option.bind_eq_some_iff.mp h
    obtain ⟨bs', hbs, h⟩ := Option.bind_eq_some_iff.mp h
    cases h
    intro x hx
    rcases List.mem_cons.mp hx with rfl | hx
    · exact ⟨a, List.mem_cons_self, hb⟩
    · obtain ⟨a', ha', hx⟩ := ih hbs x hx
      exact ⟨a', List.mem_cons_of_mem _ ha', hx⟩

/-- Everything in the table is an entry of the signature, under its weak hash and its index. -/
theorem readSignature_mem {store : Bytes} {k : Nat} {table : UInt32 → List Keyvalue}
    (h : readSignature env store k = some table) {ph : UInt32} {kv : Keyvalue}
    (hkv : kv ∈ table ph) : kv.value < k ∧ signatureEntry store kv.value = some (ph, kv.key) := by
  rw [readSignature_eq] at h
  obtain ⟨es, hes, rfl⟩ := Option.map_eq_some_iff.mp h
  obtain ⟨e, he, rfl⟩ := List.mem_map.mp ((env.sort.perm _).mem_iff.mp hkv)
  obtain ⟨hmem, hph⟩ := List.mem_filter.mp he
  obtain ⟨i, hi, hentry⟩ := mem_of_mapM hes e hmem
  obtain ⟨⟨ph', fh⟩, hsig, rfl⟩ := Option.map_eq_some_iff.mp hentry
  obtain rfl : ph' = ph := by simpa using hph
  exact ⟨List.mem_range.mp hi, hsig⟩

end Svs.Filesave
