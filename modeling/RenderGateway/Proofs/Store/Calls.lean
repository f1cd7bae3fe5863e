import RenderGateway.Proofs.Effects
import RenderGateway.Store.Disk

/-!
# What a call of a store does

A call either changes nothing, for one of five reasons, or it adds one file at the place of a plain
name; one that is taken in leaves the place it came from. What a call makes of a disk is what it
makes of the shelf that the disk shows at the store's place.
-/

namespace RenderGateway

namespace Table

theorem erase_cons (k : String) (v : α) (t : Table α) (key : String) :
    erase ((k, v) :: t) key = if k = key then erase t key else (k, v) :: erase t key := by
  by_cases h : k = key <;> simp [erase, h]

theorem erase_insert_of_ne {key other : String} (h : key ≠ other) (value : α) (t : Table α) :
    erase (insert key value t) other = insert key value (erase t other) := by
  induction t with
  | nil => simp [erase, insert, h]
  | cons entry t ih =>
    obtain ⟨k, v⟩ := entry
    by_cases hk : k = key
    · subst hk
      simp [insert, erase_cons, h]
    · rw [insert, if_neg hk, erase_cons, erase_cons, ih]
      by_cases ho : k = other
      · rw [if_pos ho, if_pos ho]
      · rw [if_neg ho, if_neg ho, insert, if_neg hk]

end Table

namespace OnDisk

variable (d : Disk)

@[simp] theorem run_write (path : String) (bytes : ByteArray) :
    (write path bytes).run d = (.ok (), { d with files := Table.insert path bytes d.files }) := rfl

@[simp] theorem run_remove (path : String) :
    (remove path).run d = (.ok (), { d with files := d.files.erase path }) := rfl

theorem run_rename (granted : Bool) (source path : String) :
    (rename granted source path).run d =
      match d.files.find? source with
      | some bytes =>
        if granted then
          (.ok true, { d with files := Table.insert path bytes (d.files.erase source) })
        else (.ok false, d)
      | none => (.ok false, d) := by
  simp only [rename, run_bind, run_get]
  cases d.files.find? source with
  | none => rfl
  | some bytes => cases granted <;> rfl

theorem run_copy (source path : String) :
    (copy source path).run d =
      match d.files.find? source with
      | some bytes => (.ok (), { d with files := Table.insert path bytes d.files })
      | none => (.error (.writeFailed s!"{path}: No such file or directory (os error 2)"), d) := by
  simp only [copy, run_bind, run_get]
  cases d.files.find? source <;> rfl

theorem run_sizeAt {path : String} {bytes : ByteArray} (h : d.files.find? path = some bytes) :
    (sizeAt path).run d = (.ok (.ofNat bytes.size), d) := by
  simp only [sizeAt, run_bind, run_get, h, run_pure]

variable {d}

/-- A file ends up in one place, whether or not it can be renamed. -/
theorem run_move_of_held {source path : String} {bytes : ByteArray}
    (hheld : d.files.find? source = some bytes) (hne : path ≠ source) (granted : Bool) :
    (move granted source path).run d =
      (.ok (), { d with files := Table.insert path bytes (d.files.erase source) }) := by
  simp only [move, run_bind, run_rename, hheld]
  cases granted with
  | true => rfl
  | false => simp [run_copy, hheld, Table.erase_insert_of_ne hne]

theorem run_move_of_missing {source path : String} (hmissing : d.files.find? source = none)
    (granted : Bool) :
    (move granted source path).run d =
      (.error (.writeFailed s!"{path}: No such file or directory (os error 2)"), d) := by
  simp only [move, run_bind, run_rename, hmissing]
  simp [run_copy, hmissing]

end OnDisk

namespace FileStore

open OnDisk

variable (store : FileStore) (d : Disk)

/-- The file that stands for an upload. -/
def uploaded (id name mimeType : String) (bytes : ByteArray) : StoredFile :=
  let storedName := Shelf.uploadName id name
  ⟨id, store.reference storedName, store.publicUrl storedName, name, .ofNat bytes.size, mimeType,
    store.place storedName⟩

/-- The file that stands for one that was taken in. -/
def imported (name mimeType : String) (bytes : ByteArray) : StoredFile :=
  ⟨name, store.reference name, store.publicUrl name, name, .ofNat bytes.size, mimeType,
    store.place name⟩

/-- The ways in which a call ends. -/
inductive Performs : StoreCall → Except StorageError StoredFile → Disk → Prop
  | saved {id name mimeType : String} {bytes : ByteArray} (reachable : d.obstructed = false)
      (plain : FileName.isPlain (Shelf.uploadName id name) = true) :
      Performs (.save id name mimeType bytes) (.ok (store.uploaded id name mimeType bytes))
        { d with files := Table.insert (store.place (Shelf.uploadName id name)) bytes d.files }
  | moved {granted : Bool} {source name mimeType : String} {bytes : ByteArray}
      (reachable : d.obstructed = false) (plain : FileName.isPlain name = true)
      (lookable : Shelf.isLookable name = true) (absent : d.files.find? (store.place name) = none)
      (held : d.files.find? source = some bytes) :
      Performs (.takeIn granted source name mimeType) (.ok (store.imported name mimeType bytes))
        { d with files := Table.insert (store.place name) bytes (d.files.erase source) }
  | obstructed {call : StoreCall} (obstructed : d.obstructed = true) :
      Performs call
        (.error (.misconfigured s!"cannot create {store.directory}: File exists (os error 17)")) d
  | unsaved {id name mimeType : String} {bytes : ByteArray} (reachable : d.obstructed = false)
      (odd : FileName.isPlain (Shelf.uploadName id name) = false) :
      Performs (.save id name mimeType bytes) (.error (.invalidName (Shelf.uploadName id name))) d
  | misnamed {granted : Bool} {source name mimeType : String} (reachable : d.obstructed = false)
      (odd : FileName.isPlain name = false) :
      Performs (.takeIn granted source name mimeType) (.error (.invalidName name)) d
  | unlookable {granted : Bool} {source name mimeType : String} (reachable : d.obstructed = false)
      (plain : FileName.isPlain name = true) (unlookable : Shelf.isLookable name = false) :
      Performs (.takeIn granted source name mimeType)
        (.error (.system "File name too long (os error 36)")) d
  | taken {granted : Bool} {source name mimeType : String} (reachable : d.obstructed = false)
      (plain : FileName.isPlain name = true) (lookable : Shelf.isLookable name = true)
      (held : (d.files.find? (store.place name)).isSome) :
      Performs (.takeIn granted source name mimeType)
        (.error (.alreadyExists (store.reference name))) d
  | missing {granted : Bool} {source name mimeType : String} (reachable : d.obstructed = false)
      (plain : FileName.isPlain name = true) (lookable : Shelf.isLookable name = true)
      (absent : d.files.find? (store.place name) = none)
      (missing : d.files.find? source = none) :
      Performs (.takeIn granted source name mimeType)
        (.error (.writeFailed s!"{store.place name}: No such file or directory (os error 2)")) d

variable {store d}

theorem run_ensureDirectory : (store.ensureDirectory).run d =
    if d.obstructed then
      (.error (.misconfigured s!"cannot create {store.directory}: File exists (os error 17)"), d)
    else (.ok (), d) := by
  cases h : d.obstructed <;> simp only [ensureDirectory, run_bind, run_get, h] <;> rfl

theorem run_holds (name : String) : (store.holds name).run d =
    if Shelf.isLookable name then (.ok (d.files.find? (store.place name)).isSome, d)
    else (.error (.system "File name too long (os error 36)"), d) := by
  cases h : Shelf.isLookable name <;> simp only [holds, h] <;> rfl

theorem performs_saveBytes (store : FileStore) (d : Disk) (id name mimeType : String)
    (bytes : ByteArray) :
    Performs store d (.save id name mimeType bytes)
      ((store.saveBytes id name mimeType bytes).run d).1
      ((store.saveBytes id name mimeType bytes).run d).2 := by
  simp only [saveBytes, run_bind, run_ensureDirectory, run_ofExcept, pathOf]
  cases hopen : d.obstructed with
  | true => exact .obstructed hopen
  | false =>
    cases hplain : FileName.isPlain (Shelf.uploadName id name) with
    | true => exact .saved hopen hplain
    | false => exact .unsaved hopen hplain

theorem performs_importFile (store : FileStore) (d : Disk) (granted : Bool)
    (source name mimeType : String) :
    Performs store d (.takeIn granted source name mimeType)
      ((store.importFile granted source name mimeType).run d).1
      ((store.importFile granted source name mimeType).run d).2 := by
  simp only [importFile, run_bind, run_ensureDirectory, run_ofExcept, pathOf]
  cases hopen : d.obstructed with
  | true => exact .obstructed hopen
  | false =>
    cases hplain : FileName.isPlain name with
    | false => exact .misnamed hopen hplain
    | true =>
      simp only [Bool.false_eq_true, if_true, if_false, run_holds]
      cases hlookable : Shelf.isLookable name with
      | false => exact .unlookable hopen hplain hlookable
      | true =>
        simp only [if_true]
        cases habsent : d.files.find? (store.place name) with
        | some held => exact .taken hopen hplain hlookable (by simp [habsent])
        | none =>
          cases hheld : d.files.find? source with
          | none =>
            simp only [Option.isSome_none, Bool.false_eq_true, if_false, run_bind,
              run_move_of_missing hheld]
            exact .missing hopen hplain hlookable habsent hheld
          | some bytes =>
            have hne : store.place name ≠ source := by
              rintro rfl
              simp [habsent] at hheld
            simp only [Option.isSome_none, Bool.false_eq_true, if_false, run_bind,
              run_move_of_held hheld hne]
            have hfound : (Table.insert (store.place name) bytes (d.files.erase source)).find?
                (store.place name) = some bytes := by
              rw [Table.find?_insert, if_pos rfl]
            rw [run_sizeAt _ hfound]
            exact .moved hopen hplain hlookable habsent hheld

theorem performs (store : FileStore) (d : Disk) (call : StoreCall) :
    Performs store d call ((store.perform call).run d).1 ((store.perform call).run d).2 := by
  cases call with
  | save id name mimeType bytes => exact performs_saveBytes store d id name mimeType bytes
  | takeIn granted source name mimeType =>
    exact performs_importFile store d granted source name mimeType

/-! ### The shelf that a disk shows -/

theorem afterPrefix?_eq_some_iff {start cs rest : List Char} :
    Text.afterPrefix? start cs = some rest ↔ cs = start ++ rest := by
  induction start generalizing cs with
  | nil => simp [Text.afterPrefix?]
  | cons c start ih =>
    cases cs with
    | nil => simp [Text.afterPrefix?]
    | cons d cs =>
      by_cases h : c = d
      · subst h
        simp [Text.afterPrefix?, ih]
      · simp [Text.afterPrefix?, h, Ne.symm h]

theorem toList_place (name : String) :
    (store.place name).toList = (store.place "").toList ++ name.toList := by
  unfold place FileName.join
  split <;> simp [toString]

theorem nameAt?_eq_some_iff {path name : String} :
    store.nameAt? path = some name ↔ path = store.place name := by
  simp only [nameAt?, Option.map_eq_some_iff, afterPrefix?_eq_some_iff]
  constructor
  · rintro ⟨rest, hpath, rfl⟩
    rw [← String.toList_inj, toList_place, hpath, String.toList_ofList]
  · rintro rfl
    exact ⟨name.toList, toList_place name, String.ofList_toList⟩

theorem nameAt?_place (name : String) : store.nameAt? (store.place name) = some name :=
  nameAt?_eq_some_iff.2 rfl

theorem place_inj {name other : String} : store.place name = store.place other ↔ name = other := by
  constructor
  · intro h
    have hname : store.nameAt? (store.place name) = some name := nameAt?_place name
    rw [h, nameAt?_place] at hname
    exact (Option.some.inj hname).symm
  · rintro rfl
    rfl

section Tables

variable (files : Table ByteArray)

theorem within_cons (path : String) (bytes : ByteArray) :
    store.within ((path, bytes) :: files) =
      ((store.nameAt? path).map (·, bytes)).toList ++ store.within files := by
  cases h : store.nameAt? path <;> simp [within, h]

theorem find?_within (name : String) :
    (store.within files).find? name = files.find? (store.place name) := by
  induction files with
  | nil => rfl
  | cons entry files ih =>
    obtain ⟨path, bytes⟩ := entry
    rw [within_cons, Table.find?_cons]
    cases hname : store.nameAt? path with
    | none =>
      have hne : path ≠ store.place name := by
        rintro rfl
        simp [nameAt?_place] at hname
      rw [if_neg hne]
      exact ih
    | some other =>
      rw [nameAt?_eq_some_iff] at hname
      subst hname
      simp only [Option.map_some, Option.toList_some, List.singleton_append, Table.find?_cons,
        place_inj, ih]

theorem within_insert (name : String) (bytes : ByteArray) :
    store.within (Table.insert (store.place name) bytes files) =
      Table.insert name bytes (store.within files) := by
  induction files with
  | nil => simp [Table.insert, within, nameAt?_place]
  | cons entry files ih =>
    obtain ⟨path, old⟩ := entry
    by_cases hpath : path = store.place name
    · subst hpath
      simp [Table.insert, within_cons, nameAt?_place]
    · rw [Table.insert, if_neg hpath, within_cons, within_cons, ih]
      cases hname : store.nameAt? path with
      | none => rfl
      | some other =>
        rw [nameAt?_eq_some_iff] at hname
        subst hname
        rw [place_inj] at hpath
        simp [Table.insert, hpath]

theorem within_erase {source : String} (h : store.nameAt? source = none) :
    store.within (files.erase source) = store.within files := by
  induction files with
  | nil => rfl
  | cons entry files ih =>
    obtain ⟨path, bytes⟩ := entry
    by_cases hpath : path = source
    · subst hpath
      simp [Table.erase_cons, within_cons, h, ih]
    · rw [Table.erase_cons, if_neg hpath, within_cons, within_cons, ih]

theorem beyond_erase (source : String) :
    store.beyond (files.erase source) = (store.beyond files).erase source := by
  simp only [beyond, Table.erase, List.filter_filter, Bool.and_comm]

theorem beyond_insert (name : String) (bytes : ByteArray) :
    store.beyond (Table.insert (store.place name) bytes files) = store.beyond files := by
  induction files with
  | nil => simp [Table.insert, beyond, nameAt?_place]
  | cons entry files ih =>
    obtain ⟨path, old⟩ := entry
    by_cases hpath : path = store.place name
    · subst hpath
      simp [Table.insert, beyond, nameAt?_place]
    · rw [Table.insert, if_neg hpath]
      simp only [beyond, List.filter_cons] at ih ⊢
      rw [ih]

theorem find?_beyond {source : String} (h : store.nameAt? source = none) :
    (store.beyond files).find? source = files.find? source := by
  induction files with
  | nil => rfl
  | cons entry files ih =>
    obtain ⟨path, bytes⟩ := entry
    by_cases hpath : path = source
    · subst hpath
      simp [beyond, h, Table.find?_cons]
    · rw [Table.find?_cons, if_neg hpath, ← ih]
      cases hname : store.nameAt? path with
      | none => simp [beyond, hname, Table.find?_cons, hpath]
      | some other => simp [beyond, hname]

end Tables

theorem shelf_with {d : Disk} (h : d.obstructed = false) (files : Table ByteArray) :
    Disk.shelf { d with files } store = .open (store.within files) := by
  rw [Disk.shelf, h]
  rfl

theorem shelf_of_unobstructed {d : Disk} (h : d.obstructed = false) :
    d.shelf store = .open (store.within d.files) := shelf_with h d.files

theorem shelf_of_obstructed {d : Disk} (h : d.obstructed = true) : d.shelf store = .obstructed := by
  rw [Disk.shelf, h]
  rfl

theorem move?_of_held {sources files : Table ByteArray} {source : String} {bytes : ByteArray}
    (h : sources.find? source = some bytes) (granted : Bool) (name : String) :
    Shelf.move? granted source name sources files =
      some (sources.erase source, Table.insert name bytes files) := by
  cases granted <;> simp [Shelf.move?, Shelf.rename?, Shelf.copyAndRemove?, h]

theorem move?_of_missing {sources files : Table ByteArray} {source : String}
    (h : sources.find? source = none) (granted : Bool) (name : String) :
    Shelf.move? granted source name sources files = none := by
  cases granted <;> simp [Shelf.move?, Shelf.rename?, Shelf.copyAndRemove?, h]

/-- What is saved on a disk is saved on the shelf that the disk shows. -/
theorem save_shelf (d : Disk) (id name mimeType : String) (bytes : ByteArray) :
    (d.shelf store).save store id name mimeType bytes =
      let r := (store.saveBytes id name mimeType bytes).run d
      r.1.map fun file => (file, r.2.shelf store) := by
  have h := performs_saveBytes store d id name mimeType bytes
  generalize (store.saveBytes id name mimeType bytes).run d = r at h ⊢
  obtain ⟨result, d'⟩ := r
  dsimp only at h ⊢
  cases h with
  | saved reachable plain =>
    rw [shelf_of_unobstructed reachable, shelf_with reachable, within_insert]
    simp only [Shelf.save, pathOf, plain]
    rfl
  | obstructed obstructed =>
    rw [shelf_of_obstructed obstructed]
    rfl
  | unsaved reachable odd =>
    simp only [shelf_of_unobstructed reachable, Shelf.save, pathOf, odd]
    rfl

/-- What is taken in on a disk is taken in by the shelf that the disk shows, from beyond it. -/
theorem takeIn_shelf (d : Disk) {source : String} (hsource : store.nameAt? source = none)
    (granted : Bool) (name mimeType : String) :
    (d.shelf store).takeIn store granted (store.beyond d.files) source name mimeType =
      let r := (store.importFile granted source name mimeType).run d
      r.1.map fun file => (file, r.2.shelf store, store.beyond r.2.files) := by
  have h := performs_importFile store d granted source name mimeType
  generalize (store.importFile granted source name mimeType).run d = r at h ⊢
  obtain ⟨result, d'⟩ := r
  dsimp only at h ⊢
  cases h with
  | moved reachable plain lookable absent held =>
    rw [← find?_within] at absent
    rw [← find?_beyond _ hsource] at held
    rw [shelf_of_unobstructed reachable, shelf_with reachable,
      within_insert, within_erase _ hsource, beyond_insert, beyond_erase]
    simp only [Shelf.takeIn, Shelf.reach, pathOf, plain, lookable, move?_of_held held]
    simp [bind, Except.bind, pure, Except.pure, Except.map, absent, imported, Table.find?_insert]
  | obstructed obstructed =>
    rw [shelf_of_obstructed obstructed]
    rfl
  | misnamed reachable odd =>
    simp only [shelf_of_unobstructed reachable, Shelf.takeIn, pathOf, odd]
    rfl
  | unlookable reachable plain unlookable =>
    rw [shelf_of_unobstructed reachable, Shelf.takeIn, pathOf, if_pos plain, unlookable]
    rfl
  | taken reachable plain lookable held =>
    rw [← find?_within] at held
    simp only [shelf_of_unobstructed reachable, Shelf.takeIn, Shelf.reach, pathOf, plain, lookable]
    simp [bind, Except.bind, throw, throwThe, MonadExceptOf.throw, Except.map, held]
  | missing reachable plain lookable absent missing =>
    rw [← find?_within] at absent
    rw [← find?_beyond _ hsource] at missing
    simp only [shelf_of_unobstructed reachable, Shelf.takeIn, Shelf.reach, pathOf, plain, lookable,
      move?_of_missing missing]
    simp [bind, Except.bind, throw, throwThe, MonadExceptOf.throw, Except.map, absent]

end FileStore

end RenderGateway
