import Svs.Repository.IntegrityCheck
import Svs.Repository.Saves

/-!
# How the objects of a session tile MAIN.DAT

A new object starts at the physical end of the file, while an abandoned save takes back its rows
but not its bytes. So the objects tile the file exactly as long as every save that commits finds
the file as long as `filesize` says, and the file pointer where its object ends.
-/

namespace Svs

open Library Library.Program

variable {σ : Type} {env : Env σ}

/-- The objects, which come in the order of their ids, lie one behind the other from byte 4 on. -/
structure Repository.Tiled (r : Repository) : Prop where
  order : r.tables.objects.Pairwise fun a b => a.id < b.id
  tiles : ∃ e, Tiles 4 r.tables.objects e

/-- Moreover the last object ends where the file does and where `filesize` says, and a read-only
check finds no object out of its place. -/
structure Repository.Closed (r : Repository) : Prop where
  tiles : Tiles 4 r.tables.objects r.dat.bytes.length
  filesize : r.Records r.dat.bytes.length
  check : ∀ blake3 stack, ∃ r' reports,
    SVS.openRepository blake3 stack true true r = .ok (r', reports) ∧
      ∀ i2 x, Datacheck.missing i2 x ∉ reports

/-- The objects tile the file up to `e`, which is what `filesize` says. -/
structure Repository.TiledTo (r : Repository) (e : Int) : Prop where
  order : r.tables.objects.Pairwise fun a b => a.id < b.id
  nonneg : ∀ row ∈ r.tables.objects, 0 ≤ row.size
  tiles : Tiles 4 r.tables.objects e
  filesize : r.Records e

/-- What is asked of a step: the objects tile the file, after a commit up to its end. -/
def StepTiles (x : Repository × Act σ × Repository) : Prop :=
  x.2.2.Tiled ∧ ∀ v, x.2.1 = .commit v → x.2.2.Closed

/-- A save that commits starts on a file as long as `filesize` says. -/
def StartsClean (x : Repository × Act σ × Repository) : Prop :=
  ∀ v, x.2.1 = .commit v → x.1.Records x.1.dat.bytes.length

theorem Repository.Records.unique {r : Repository} {m n : Int} (h : r.Records m)
    (h' : r.Records n) : m = n := by
  obtain ⟨v, hv, rfl⟩ := h
  obtain ⟨w, hw, rfl⟩ := h'
  rw [hv] at hw
  cases hw
  rfl

theorem Repository.Records.congr {r r' : Repository} {n : Int} (h : r.Records n)
    (he : r'.tables.configValue "filesize" = r.tables.configValue "filesize") : r'.Records n := by
  obtain ⟨v, hv, hn⟩ := h
  exact ⟨v, he.trans hv, hn⟩

theorem Repository.TiledTo.tiled {r : Repository} {e : Int} (h : r.TiledTo e) : r.Tiled :=
  ⟨h.order, e, h.tiles⟩

/-- A save that commits keeps the tiling exactly if it started clean. -/
theorem Saved.tiled_iff {r : Repository} {v : Save σ} {s t u : SaveState σ} {e : Int}
    (h : Saved env r v s t u) (hr : r.TiledTo e) :
    (u.close.Tiled ↔ r.Records r.dat.bytes.length) ∧
      (r.Records r.dat.bytes.length → u.close.TiledTo u.dat.bytes.length ∧ u.close.Closed) := by
  obtain ⟨object, file, hobject, -, hclose, -, -⟩ := h.close_eq
  have hobjects : u.close.tables.objects = r.tables.objects ++ [object] := by rw [hclose]; rfl
  have hbytes : u.close.dat.bytes = u.dat.bytes := rfl
  have hsize := h.size_ge
  have hend : ∀ e' : Int, Tiles 4 (r.tables.objects ++ [object]) e' ↔
      e = r.dat.bytes.length ∧ e' = u.dat.bytes.length := by
    intro e'
    rw [tiles_append hr.tiles, hobject]
    unfold Tiles Tiles
    dsimp only
    omega
  have hrecords : u.close.Records u.dat.bytes.length := by
    obtain ⟨w, hw, -⟩ := hr.filesize
    refine ⟨.integer u.dat.bytes.length, ?_, rfl⟩
    rw [hclose]
    exact Tables.configValue_updateConfig_self _ hw
  have tiledTo : r.Records r.dat.bytes.length → u.close.TiledTo u.dat.bytes.length := by
    intro hclean
    refine ⟨?_, ?_, ?_, hrecords⟩
    · rw [hobjects, List.pairwise_append]
      refine ⟨hr.order, List.pairwise_singleton _ _, fun a ha b hb => ?_⟩
      rw [List.mem_singleton.mp hb, hobject]
      exact nextRowid_gt _ _ (List.mem_map_of_mem ha)
    · intro row hrow
      rw [hobjects] at hrow
      rcases List.mem_append.mp hrow with hrow | hrow
      · exact hr.nonneg row hrow
      · rw [List.mem_singleton.mp hrow, hobject]
        dsimp only
        omega
    · rw [hobjects]
      exact (hend _).mpr ⟨hr.filesize.unique hclean, rfl⟩
  refine ⟨⟨fun ht => ?_, fun hclean => (tiledTo hclean).tiled⟩, fun hclean => ⟨tiledTo hclean, ?_⟩⟩
  · obtain ⟨e', he'⟩ := ht.tiles
    rw [hobjects] at he'
    rw [← ((hend e').mp he').1]
    exact hr.filesize
  · have htiled := tiledTo hclean
    obtain ⟨w, hw, -⟩ := hrecords
    refine ⟨htiled.tiles, htiled.filesize, fun blake3 stack => ?_⟩
    exact SVS.openRepository_tiled stack htiled.tiles htiled.nonneg (Int.le_refl _) hw

/-- What a step does to the tiling. -/
theorem Step.tiled_iff {r r' : Repository} {a : Act σ} {e : Int} (h : Step env r a r')
    (hland : CommitsLand env r a) (hr : r.TiledTo e) :
    (StepTiles (r, a, r') ↔ StartsClean (r, a, r')) ∧
      (StartsClean (r, a, r') → ∃ e', r'.TiledTo e') := by
  have unchanged : r'.tables.objects = r.tables.objects →
      r'.tables.configValue "filesize" = r.tables.configValue "filesize" → r'.TiledTo e := by
    intro hobjects hconfig
    refine ⟨?_, ?_, ?_, hr.filesize.congr hconfig⟩
    all_goals rw [hobjects]
    exacts [hr.order, hr.nonneg, hr.tiles]
  have quiet : (∀ v, a ≠ .commit v) → r'.TiledTo e →
      (StepTiles (r, a, r') ↔ StartsClean (r, a, r')) ∧
        (StartsClean (r, a, r') → ∃ e', r'.TiledTo e') := fun hno ht =>
    ⟨⟨fun _ v hv => absurd hv (hno v), fun _ => ⟨ht.tiled, fun v hv => absurd hv (hno v)⟩⟩,
      fun _ => ⟨e, ht⟩⟩
  cases h with
  | commit hc =>
    obtain ⟨hiff, hkeep⟩ := (Landed.mk hc (hland _ _ _ _ rfl hc)).saved.tiled_iff hr
    refine ⟨⟨fun ht _ _ => hiff.mp ht.1, fun hclean => ?_⟩, fun hclean =>
      ⟨_, (hkeep (hclean _ rfl)).1⟩⟩
    exact ⟨hiff.mpr (hclean _ rfl), fun _ _ => (hkeep (hclean _ rfl)).2⟩
  | abandon ha =>
    have htables := ha.uncommitted.close_tables
    exact quiet (by simp) (unchanged (by rw [htables]) (by rw [htables]))
  | configure hc => exact quiet (by simp) (unchanged rfl hc)

theorem SVS.create_tiledTo (codepage time : Int) : (SVS.create codepage time).TiledTo 4 :=
  ⟨List.Pairwise.nil, by simp [SVS.create], rfl, .integer 4, rfl, rfl⟩

end Svs
