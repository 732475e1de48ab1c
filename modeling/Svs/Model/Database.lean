import Svs.Model.Basic

/-!
# MAIN.DB

The tables the file subsystem reads and writes, the statements it issues against them and the
transaction around a save. SQLite is taken at its documentation: a transaction is atomic, a
`UNIQUE` index refuses a second row, a new `INTEGER PRIMARY KEY` is one above the largest, and
rows come back in primary-key order.
-/

namespace Svs

inductive SqlValue where
  | integer (n : Int)
  | real (x : Rat)
  | text (s : String)
  deriving DecidableEq

/-- `sqlite3_column_int64`: reals are truncated, of a text the leading digits count. -/
def SqlValue.toInt64 : SqlValue → Int
  | .integer n => n
  | .real x => x.num.tdiv x.den
  | .text s =>
    (s.toList.takeWhile Char.isDigit).foldl (fun n c => 10 * n + (c.toNat - '0'.toNat : Nat)) 0

/-- A row of `objects`. -/
structure ObjectRow where
  id : Int
  offset : Int
  size : Int
  hash : Filehash
  type : Int
  deriving DecidableEq

/-- A row of `files`. -/
structure FileRow where
  id : Int
  object : Int
  fileSize : Int
  fileHash : Filehash
  modifiedDate : Int
  updatedAt : Int
  deltasSize : Int
  deltasCount : Int
  sourceSize : Int
  parent : Int
  deriving DecidableEq

structure Tables where
  config : List (String × SqlValue)
  objects : List ObjectRow
  files : List FileRow
  deriving DecidableEq

/-- The connection: the tables as it sees them, and while a transaction is open the tables the
transaction started from. -/
structure Database where
  tables : Tables
  saved : Option Tables

/-- `SELECT value FROM config WHERE name = ?`. -/
def Tables.configValue (t : Tables) (name : String) : Option SqlValue :=
  (t.config.find? fun row => row.1 == name).map Prod.snd

/-- `SELECT * FROM files where object = @offset`. -/
def Tables.fileAt (t : Tables) (offset : Int) : Option FileRow :=
  t.files.find? fun row => row.object == offset

/-- The next `INTEGER PRIMARY KEY`. -/
def nextRowid (ids : List Int) : Int := ids.foldl max 0 + 1

/-- `INSERT INTO objects(offset, size, hash, type)`; `idx_object_offset` is unique. -/
def Tables.insertObject (t : Tables) (offset size : Int) (hash : Filehash) (type : Int) :
    Option (Tables × Int) :=
  if t.objects.any (fun row => row.offset == offset) then none
  else
    let id := nextRowid (t.objects.map ObjectRow.id)
    some ({ t with objects := t.objects ++ [⟨id, offset, size, hash, type⟩] }, id)

/-- `INSERT INTO files(id, object, …)`; the key and `idx_file_offset` are unique. -/
def Tables.insertFile (t : Tables) (row : FileRow) : Option Tables :=
  if t.files.any (fun r => r.id == row.id || r.object == row.object) then none
  else some { t with files := t.files ++ [row] }

/-- `UPDATE config SET value = @value WHERE name = @name`. -/
def Tables.updateConfig (t : Tables) (name : String) (value : SqlValue) : Tables :=
  { t with config := t.config.map fun row => if row.1 == name then (name, value) else row }

/-- The tables on disk: what a transaction still open would be rolled back to. -/
def Database.durable (db : Database) : Tables := db.saved.getD db.tables

/-- `ROLLBACK`, also what closing the connection does to an open transaction. -/
def Database.rollback (db : Database) : Database := ⟨db.durable, none⟩

theorem Tables.configValue_updateConfig_self {t : Tables} {name : String} {v : SqlValue}
    (value : SqlValue) (h : t.configValue name = some v) :
    (t.updateConfig name value).configValue name = some value := by
  obtain ⟨config, _, _⟩ := t
  simp only [Tables.configValue, Tables.updateConfig] at h ⊢
  induction config with
  | nil => simp at h
  | cons row rest ih =>
    by_cases hr : row.1 = name
    · simp [hr]
    · have hno : (row.1 == name) = false := by simpa using hr
      simp only [List.map_cons, List.find?_cons, hno, Bool.false_eq_true, if_false] at h ⊢
      exact ih h

theorem Tables.configValue_updateConfig_of_ne {t : Tables} {name other : String}
    (value : SqlValue) (h : other ≠ name) :
    (t.updateConfig name value).configValue other = t.configValue other := by
  obtain ⟨config, _, _⟩ := t
  simp only [Tables.configValue, Tables.updateConfig]
  induction config with
  | nil => rfl
  | cons row rest ih =>
    by_cases hr : row.1 = name
    · have hne : (name == other) = false := by simpa using Ne.symm h
      have hyes : (name == name) = true := by simp
      simp only [List.map_cons, List.find?_cons, hr, hyes, hne, if_true]
      exact ih
    · have hno : (row.1 == name) = false := by simpa using hr
      simp only [List.map_cons, List.find?_cons, hno, Bool.false_eq_true, if_false]
      cases row.1 == other with
      | true => rfl
      | false => exact ih

theorem nextRowid_gt (ids : List Int) : ∀ i ∈ ids, i < nextRowid ids := by
  have bound : ∀ (l : List Int) (m : Int), m ≤ l.foldl max m ∧ ∀ i ∈ l, i ≤ l.foldl max m := by
    intro l
    induction l with
    | nil => intro m; simp
    | cons a l ih =>
      intro m
      obtain ⟨h1, h2⟩ := ih (max m a)
      refine ⟨by simp only [List.foldl_cons]; omega, ?_⟩
      intro i hi
      rcases List.mem_cons.mp hi with rfl | hi
      · simp only [List.foldl_cons]; omega
      · exact h2 i hi
  intro i hi
  have := (bound ids 0).2 i hi
  unfold nextRowid
  omega

/-- What an accepted insertion into `objects` leaves. -/
theorem Tables.insertObject_some {t t' : Tables} {offset size type id : Int} {hash : Filehash}
    (h : t.insertObject offset size hash type = some (t', id)) :
    (∀ row ∈ t.objects, row.offset ≠ offset) ∧ id = nextRowid (t.objects.map ObjectRow.id) ∧
      t' = { t with objects := t.objects ++ [⟨id, offset, size, hash, type⟩] } := by
  unfold Tables.insertObject at h
  split at h
  · cases h
  · rename_i hn
    have hfresh : ∀ row ∈ t.objects, row.offset ≠ offset := by
      intro row hrow heq
      exact hn (List.any_eq_true.mpr ⟨row, hrow, by simpa using heq⟩)
    obtain ⟨rfl, rfl⟩ := by simpa using h
    exact ⟨hfresh, rfl, rfl⟩

theorem Tables.insertObject_of_fresh {t : Tables} {offset : Int} (size : Int) (hash : Filehash)
    (type : Int) (h : ∀ row ∈ t.objects, row.offset ≠ offset) :
    t.insertObject offset size hash type =
      some ({ t with objects := t.objects ++
        [⟨nextRowid (t.objects.map ObjectRow.id), offset, size, hash, type⟩] },
        nextRowid (t.objects.map ObjectRow.id)) := by
  unfold Tables.insertObject
  rw [if_neg]
  intro hany
  obtain ⟨row, hrow, heq⟩ := List.any_eq_true.mp hany
  exact h row hrow (by simpa using heq)

theorem Tables.insertObject_of_used {t : Tables} {offset : Int} (size : Int) (hash : Filehash)
    (type : Int) {row : ObjectRow} (hr : row ∈ t.objects) (h : row.offset = offset) :
    t.insertObject offset size hash type = none := by
  unfold Tables.insertObject
  rw [if_pos]
  exact List.any_eq_true.mpr ⟨row, hr, by simpa using h⟩

theorem Tables.insertFile_some {t t' : Tables} {row : FileRow}
    (h : t.insertFile row = some t') :
    (∀ r ∈ t.files, r.id ≠ row.id ∧ r.object ≠ row.object) ∧
      t' = { t with files := t.files ++ [row] } := by
  unfold Tables.insertFile at h
  split at h
  · cases h
  · rename_i hn
    refine ⟨fun r hr => ?_, by simpa using h.symm⟩
    have : ¬ ((r.id == row.id || r.object == row.object) = true) := fun hc =>
      hn (List.any_eq_true.mpr ⟨r, hr, hc⟩)
    simpa using this

theorem Tables.insertFile_of_fresh {t : Tables} {row : FileRow}
    (h : ∀ r ∈ t.files, r.id ≠ row.id ∧ r.object ≠ row.object) :
    t.insertFile row = some { t with files := t.files ++ [row] } := by
  unfold Tables.insertFile
  rw [if_neg]
  intro hany
  obtain ⟨r, hr, heq⟩ := List.any_eq_true.mp hany
  have := h r hr
  simp_all

end Svs
