import Mathlib.Data.List.Infix
import RenderGateway.Proofs.Store.Calls

/-!
# Stores only grow

Ids of uploads are new, files that are taken in come from outside of the store, and what others do
leaves its directory alone. Then a call that succeeds adds one file under a new name which lies in
the directory itself, and a call that fails changes nothing. So over any sequence of calls a name
that is in the store stays there with its bytes.
-/

namespace RenderGateway

namespace FileName

/-- A name under which a file lies in its directory itself. -/
structure Direct (name : String) : Prop where
  ne_empty : name ≠ ""
  ne_dot : name ≠ "."
  no_slash : '/' ∉ name.toList
  no_backslash : '\\' ∉ name.toList
  no_doubleDot : ¬ ['.', '.'] <:+: name.toList

theorem hasDoubleDot_iff {cs : List Char} : hasDoubleDot cs = true ↔ ['.', '.'] <:+: cs := by
  fun_induction hasDoubleDot cs with
  | case1 cs => simp [List.infix_cons_iff]
  | case2 c cs hnot ih =>
    rw [ih, List.infix_cons_iff]
    refine ⟨.inr, fun h => h.resolve_left fun hprefix => ?_⟩
    obtain ⟨rest, hrest⟩ := hprefix
    simp only [List.cons_append, List.cons.injEq] at hrest
    exact hnot rest hrest.1.symm hrest.2.symm
  | case3 => simp

theorem isPlain_iff {name : String} : isPlain name = true ↔ Direct name := by
  have hempty : name.toList = [] ↔ name = "" := by simp
  have hdot : name.toList = ['.'] ↔ name = "." := by
    rw [← String.toList_inj]
    rfl
  simp only [isPlain, isPlainChars, Bool.and_eq_true, decide_eq_true_eq, Bool.not_eq_true',
    ← Bool.not_eq_true, List.contains_iff_mem, hasDoubleDot_iff, hempty, hdot, ne_eq]
  constructor
  · rintro ⟨⟨⟨⟨h₁, h₂⟩, h₃⟩, h₄⟩, h₅⟩
    exact ⟨h₁, h₂, h₃, h₄, h₅⟩
  · rintro ⟨h₁, h₂, h₃, h₄, h₅⟩
    exact ⟨⟨⟨⟨h₁, h₂⟩, h₃⟩, h₄⟩, h₅⟩

/-- A text made of letters, digits and dashes, as ids are. -/
def IsWord (cs : List Char) : Prop := ∀ c ∈ cs, c.isAlphanum = true ∨ c = '-'

instance (cs : List Char) : Decidable (IsWord cs) := List.decidableBAll _ cs

theorem toNat_lt_of_isAlphanum {c : Char} (h : c.isAlphanum = true) : c.toNat < 128 := by
  have hbelow : ∀ {d : Char}, c.val ≤ d.val → d.toNat < 128 → c.toNat < 128 := fun hle hd =>
    Nat.lt_of_le_of_lt (UInt32.le_iff_toNat_le.1 hle) hd
  rcases Bool.or_eq_true_iff.1 h with halpha | hdigit
  · rcases Bool.or_eq_true_iff.1 halpha with hupper | hlower
    · exact hbelow (of_decide_eq_true hupper).2 (by decide)
    · exact hbelow (of_decide_eq_true (Bool.and_eq_true_iff.1 hlower).2) (by decide)
  · exact hbelow (of_decide_eq_true (Bool.and_eq_true_iff.1 hdigit).2) (by decide)

theorem isAlphanum_toLower {c : Char} (h : c.isAlphanum = true) : c.toLower.isAlphanum = true := by
  have hall : ∀ n < 128, (Char.ofNat n).isAlphanum = true →
      (Char.ofNat n).toLower.isAlphanum = true := by decide +kernel
  have hc := hall c.toNat (toNat_lt_of_isAlphanum h)
  rw [Char.ofNat_toNat] at hc
  exact hc h

theorem IsWord.not_mem {cs : List Char} (h : IsWord cs) {c : Char} (hodd : c.isAlphanum = false)
    (hdash : c ≠ '-') : c ∉ cs := by
  intro hmem
  rcases h c hmem with hword | hword
  · rw [hodd] at hword
    cases hword
  · exact hdash hword

theorem IsWord.dot_not_mem {cs : List Char} (h : IsWord cs) : '.' ∉ cs :=
  h.not_mem (by decide) (by decide)

theorem not_doubleDot_of_words {cs ds : List Char} (hcs : IsWord cs) (hds : IsWord ds) :
    ¬ ['.', '.'] <:+: cs ++ '.' :: ds := by
  intro hdots
  -- The only dot is the one between the words.
  have hcount : 2 ≤ _ := hdots.sublist.count_le '.'
  rw [List.count_append, List.count_cons_self, List.count_eq_zero.2 hcs.dot_not_mem,
    List.count_eq_zero.2 hds.dot_not_mem] at hcount
  omega

theorem word_of_mediaExtension? {name ext : String} (h : mediaExtension? name = some ext) :
    IsWord ext.toList := by
  obtain ⟨raw, hraw, rfl⟩ := Option.map_eq_some_iff.1 h
  have hall := (Option.filter_eq_some_iff.1 hraw).2
  simp only [decide_eq_true_eq, List.all_eq_true] at hall
  intro c hc
  rw [String.toList_ofList, List.mem_map] at hc
  obtain ⟨d, hd, rfl⟩ := hc
  exact .inl (isAlphanum_toLower (hall.2.2 d hd))

/-- The name of an upload is its id, or its id, a dot and a word. -/
theorem uploadName_cases (id name : String) :
    Shelf.uploadName id name = id ∨ ∃ ext : String, IsWord ext.toList ∧
      (Shelf.uploadName id name).toList = id.toList ++ '.' :: ext.toList := by
  cases h : mediaExtension? name with
  | none => exact .inl (by rw [Shelf.uploadName, h])
  | some ext =>
    refine .inr ⟨ext, word_of_mediaExtension? h, ?_⟩
    rw [Shelf.uploadName, h]
    simp [toString]

theorem prefix_uploadName (id name : String) :
    id.toList <+: (Shelf.uploadName id name).toList := by
  rcases uploadName_cases id name with h | ⟨ext, _, h⟩
  · rw [h]
  · rw [h]
    exact List.prefix_append _ _

theorem direct_uploadName {id : String} (hne : id ≠ "") (hid : IsWord id.toList) (name : String) :
    Direct (Shelf.uploadName id name) := by
  have hslash : ∀ {cs}, IsWord cs → '/' ∉ cs := fun h => h.not_mem (by decide) (by decide)
  have hback : ∀ {cs}, IsWord cs → '\\' ∉ cs := fun h => h.not_mem (by decide) (by decide)
  rcases uploadName_cases id name with h | ⟨ext, hext, h⟩
  · rw [h]
    exact {
      ne_empty := hne
      ne_dot := by
        rintro rfl
        exact hid.dot_not_mem (by decide)
      no_slash := hslash hid
      no_backslash := hback hid
      no_doubleDot := fun hdots => hid.dot_not_mem (hdots.subset (by simp)) }
  · have hid' : id.toList ≠ [] := by simpa using hne
    exact {
      ne_empty := by
        rw [ne_eq, ← String.toList_inj, h]
        simp
      ne_dot := by
        rw [ne_eq, ← String.toList_inj, h]
        intro heq
        have hlen := congrArg List.length heq
        have hpos := List.length_pos_iff.2 hid'
        simp at hlen
        omega
      no_slash := by simp [h, hslash hid, hslash hext]
      no_backslash := by simp [h, hback hid, hback hext]
      no_doubleDot := h ▸ not_doubleDot_of_words hid hext }

end FileName

/-- What happens to a disk: a call of the store, or someone else writes or removes a file. -/
inductive StoreEvent
  | call (c : StoreCall)
  | elsewhere (path : String) (content : Option ByteArray)

namespace FileStore

variable (store : FileStore)

def next (d : Disk) : StoreEvent → Disk
  | .call c => ((store.perform c).run d).2
  | .elsewhere path (some bytes) => { d with files := Table.insert path bytes d.files }
  | .elsewhere path none => { d with files := d.files.erase path }

/-- What a sequence of events makes of a disk. -/
def after (d : Disk) (events : List StoreEvent) : Disk := events.foldl store.next d

/-- An id that nothing in the store begins with. -/
def FreshId (d : Disk) (id : String) : Prop :=
  id ≠ "" ∧ FileName.IsWord id.toList ∧
    ∀ entry ∈ d.files, ¬ (store.place id).toList <+: entry.1.toList

instance (d : Disk) (id : String) : Decidable (store.FreshId d id) :=
  have : Decidable (∀ entry ∈ d.files, ¬ (store.place id).toList <+: entry.1.toList) :=
    List.decidableBAll _ d.files
  inferInstanceAs (Decidable (_ ∧ FileName.IsWord id.toList ∧ _))

/-- Ids are fresh, and files are taken in and written by others outside of the directory. -/
def Admits (d : Disk) : StoreEvent → Prop
  | .call (.save id _ _ _) => store.FreshId d id
  | .call (.takeIn _ source _ _) => store.nameAt? source = none
  | .elsewhere path _ => store.nameAt? path = none

instance (d : Disk) : (e : StoreEvent) → Decidable (store.Admits d e)
  | .call (.save id _ _ _) => inferInstanceAs (Decidable (store.FreshId d id))
  | .call (.takeIn _ source _ _) => inferInstanceAs (Decidable (store.nameAt? source = none))
  | .elsewhere path _ => inferInstanceAs (Decidable (store.nameAt? path = none))

def Orderly : Disk → List StoreEvent → Prop
  | _, [] => True
  | d, e :: events => store.Admits d e ∧ Orderly (store.next d e) events

instance decideOrderly : (d : Disk) → (events : List StoreEvent) →
    Decidable (store.Orderly d events)
  | _, [] => .isTrue trivial
  | d, e :: events => @instDecidableAnd _ _ _ (decideOrderly (store.next d e) events)

/-- A file has been added under a new name of its own, with these bytes; another may have been
removed, and nothing else has changed. -/
structure Adds (d d' : Disk) (name : String) (bytes : ByteArray) (removed : Option String)
    (file : StoredFile) : Prop where
  direct : FileName.Direct name
  place_eq : file.place = store.place name
  reference_eq : file.reference = store.reference name
  size_eq : file.size = .ofNat bytes.size
  absent : d.files.find? (store.place name) = none
  find?_eq : ∀ path, d'.files.find? path =
    if path = store.place name then some bytes
    else if some path = removed then none else d.files.find? path

/-- Why a file is not taken in: the directory cannot be made, the name is not one of a file in it
or is taken, or there is no such file. -/
def Refuses (d : Disk) (source name : String) : Prop :=
  d.obstructed = true ∨ ¬ FileName.Direct name ∨ Shelf.isLookable name = false ∨
    (d.files.find? (store.place name)).isSome = true ∨ d.files.find? source = none

/-- What a call of a store does. -/
inductive Fulfils (d : Disk) : StoreCall → Except StorageError StoredFile × Disk → Prop
  | saved {id name mimeType : String} {bytes : ByteArray} {file : StoredFile} {d' : Disk}
      (adds : store.Adds d d' (Shelf.uploadName id name) bytes none file) :
      Fulfils d (.save id name mimeType bytes) (.ok file, d')
  | unsaved {id name mimeType : String} {bytes : ByteArray} {e : StorageError}
      (obstructed : d.obstructed = true) :
      Fulfils d (.save id name mimeType bytes) (.error e, d)
  | moved {granted : Bool} {source name mimeType : String} {bytes : ByteArray}
      {file : StoredFile} {d' : Disk} (held : d.files.find? source = some bytes)
      (adds : store.Adds d d' name bytes (some source) file) :
      Fulfils d (.takeIn granted source name mimeType) (.ok file, d')
  | refused {granted : Bool} {source name mimeType : String} {e : StorageError}
      (refuses : store.Refuses d source name) :
      Fulfils d (.takeIn granted source name mimeType) (.error e, d)

variable {store} {d : Disk}

theorem exists_mem_of_find? {files : Table ByteArray} {path : String} {bytes : ByteArray}
    (h : files.find? path = some bytes) : ∃ entry ∈ files, entry.1 = path := by
  induction files with
  | nil => cases h
  | cons entry files ih =>
    obtain ⟨k, v⟩ := entry
    rw [Table.find?_cons] at h
    by_cases hk : k = path
    · exact ⟨(k, v), List.mem_cons_self, hk⟩
    · rw [if_neg hk] at h
      obtain ⟨entry, hmem, hpath⟩ := ih h
      exact ⟨entry, List.mem_cons_of_mem _ hmem, hpath⟩

theorem FreshId.absent {id : String} (h : store.FreshId d id) (name : String) :
    d.files.find? (store.place (Shelf.uploadName id name)) = none := by
  by_contra hfound
  obtain ⟨bytes, hfound⟩ := Option.ne_none_iff_exists'.1 hfound
  obtain ⟨entry, hmem, hpath⟩ := exists_mem_of_find? hfound
  refine h.2.2 entry hmem ?_
  rw [hpath, toList_place id, toList_place (Shelf.uploadName id name)]
  exact (List.prefix_append_right_inj _).2 (FileName.prefix_uploadName id name)

theorem fulfils {call : StoreCall} (h : store.Admits d (.call call)) :
    store.Fulfils d call ((store.perform call).run d) := by
  have hperforms := performs store d call
  generalize (store.perform call).run d = r at hperforms ⊢
  obtain ⟨result, d'⟩ := r
  dsimp only at hperforms
  cases hperforms with
  | @saved id name mimeType bytes reachable plain =>
    have hfresh : store.FreshId d id := h
    refine .saved ⟨FileName.isPlain_iff.1 plain, rfl, rfl, rfl, hfresh.absent name, fun path => ?_⟩
    simp only [Table.find?_insert, eq_comm (a := path), reduceCtorEq, if_false]
  | @moved granted source name mimeType bytes reachable plain lookable absent held =>
    refine .moved held ⟨FileName.isPlain_iff.1 plain, rfl, rfl, rfl, absent, fun path => ?_⟩
    simp only [Table.find?_insert, Table.find?_erase, eq_comm (a := path), Option.some.injEq]
  | obstructed obstructed =>
    cases call with
    | save => exact .unsaved obstructed
    | takeIn => exact .refused (.inl obstructed)
  | @unsaved id name mimeType bytes reachable odd =>
    have hfresh : store.FreshId d id := h
    have hplain := FileName.isPlain_iff.2 (FileName.direct_uploadName hfresh.1 hfresh.2.1 name)
    rw [odd] at hplain
    cases hplain
  | misnamed reachable odd =>
    refine .refused (.inr (.inl fun hdirect => ?_))
    rw [FileName.isPlain_iff.2 hdirect] at odd
    cases odd
  | unlookable reachable plain unlookable =>
    exact .refused (.inr (.inr (.inl unlookable)))
  | taken reachable plain lookable held =>
    exact .refused (.inr (.inr (.inr (.inl held))))
  | missing reachable plain lookable absent missing =>
    exact .refused (.inr (.inr (.inr (.inr missing))))

theorem ne_place_of_outside {path : String} (h : store.nameAt? path = none) (name : String) :
    path ≠ store.place name := by
  rintro rfl
  rw [nameAt?_place] at h
  cases h

/-- A file of the store stays where it is while a call adds another. -/
theorem Adds.keeps {d' : Disk} {name : String} {bytes : ByteArray} {removed : Option String}
    {file : StoredFile} (h : store.Adds d d' name bytes removed file)
    (houtside : ∀ path, removed = some path → store.nameAt? path = none) {other : String}
    {old : ByteArray} (hold : d.files.find? (store.place other) = some old) :
    d'.files.find? (store.place other) = some old := by
  have hname : store.place other ≠ store.place name := by
    intro heq
    rw [heq, h.absent] at hold
    cases hold
  have hremoved : some (store.place other) ≠ removed := fun heq =>
    ne_place_of_outside (houtside _ heq.symm) other rfl
  rw [h.find?_eq, if_neg hname, if_neg hremoved, hold]

theorem Adds.origin {d' : Disk} {name : String} {bytes : ByteArray} {removed : Option String}
    {file : StoredFile} (h : store.Adds d d' name bytes removed file) {other : String}
    {found : ByteArray} (hfound : d'.files.find? (store.place other) = some found) :
    d.files.find? (store.place other) = some found ∨
      file.place = store.place other ∧ FileName.Direct other := by
  rw [h.find?_eq] at hfound
  by_cases hname : store.place other = store.place name
  · refine .inr ⟨h.place_eq.trans hname.symm, ?_⟩
    rw [place_inj.1 hname]
    exact h.direct
  · rw [if_neg hname] at hfound
    split at hfound
    · cases hfound
    · exact .inl hfound

/-- A file of the store keeps its bytes whatever happens next. -/
theorem keeps_next {e : StoreEvent} (h : store.Admits d e) {name : String} {bytes : ByteArray}
    (hheld : d.files.find? (store.place name) = some bytes) :
    (store.next d e).files.find? (store.place name) = some bytes := by
  cases e with
  | call call =>
    have hfulfils := fulfils h
    rw [next]
    generalize (store.perform call).run d = r at hfulfils ⊢
    cases hfulfils with
    | saved adds => exact adds.keeps (fun _ hremoved => by cases hremoved) hheld
    | unsaved _ => exact hheld
    | moved _ adds =>
      refine adds.keeps (fun path hremoved => ?_) hheld
      cases hremoved
      exact h
    | refused _ => exact hheld
  | elsewhere path content =>
    have hne := ne_place_of_outside h name
    cases content with
    | none => rw [next, Table.find?_erase, if_neg hne, hheld]
    | some other => rw [next, Table.find?_insert, if_neg hne, hheld]

/-- A file of the store was there before, or the call has just added it. -/
theorem origin_next {e : StoreEvent} (h : store.Admits d e) {name : String} {bytes : ByteArray}
    (hheld : (store.next d e).files.find? (store.place name) = some bytes) :
    d.files.find? (store.place name) = some bytes ∨
      ∃ call file, e = .call call ∧ ((store.perform call).run d).1 = .ok file ∧
        file.place = store.place name ∧ FileName.Direct name := by
  cases e with
  | call call =>
    have hfulfils := fulfils h
    rw [next] at hheld
    generalize hr : (store.perform call).run d = r at hfulfils hheld
    cases hfulfils with
    | saved adds =>
      exact (adds.origin hheld).imp_right fun hnew => ⟨_, _, rfl, congrArg Prod.fst hr, hnew⟩
    | unsaved _ => exact .inl hheld
    | moved _ adds =>
      exact (adds.origin hheld).imp_right fun hnew => ⟨_, _, rfl, congrArg Prod.fst hr, hnew⟩
    | refused _ => exact .inl hheld
  | elsewhere path content =>
    have hne := ne_place_of_outside h name
    cases content with
    | none =>
      rw [next, Table.find?_erase, if_neg hne] at hheld
      exact .inl hheld
    | some other =>
      rw [next, Table.find?_insert, if_neg hne] at hheld
      exact .inl hheld

theorem orderly_append {events later : List StoreEvent} :
    store.Orderly d (events ++ later) ↔
      store.Orderly d events ∧ store.Orderly (store.after d events) later := by
  induction events generalizing d with
  | nil => simp [Orderly, after]
  | cons e events ih => simp [Orderly, after, ih, and_assoc]

theorem after_append (events later : List StoreEvent) :
    store.after d (events ++ later) = store.after (store.after d events) later :=
  List.foldl_append

theorem keeps_after {events : List StoreEvent} (h : store.Orderly d events) {name : String}
    {bytes : ByteArray} (hheld : d.files.find? (store.place name) = some bytes) :
    (store.after d events).files.find? (store.place name) = some bytes := by
  induction events generalizing d with
  | nil => exact hheld
  | cons e events ih => exact ih h.2 (keeps_next h.1 hheld)

theorem origin_after {events : List StoreEvent} (h : store.Orderly d events) {name : String}
    {bytes : ByteArray}
    (hheld : (store.after d events).files.find? (store.place name) = some bytes) :
    d.files.find? (store.place name) = some bytes ∨
      ∃ before call rest file, events = before ++ .call call :: rest ∧
        ((store.perform call).run (store.after d before)).1 = .ok file ∧
        file.place = store.place name ∧ FileName.Direct name := by
  induction events generalizing d with
  | nil => exact .inl hheld
  | cons e events ih =>
    rcases ih h.2 hheld with hheld | ⟨before, call, rest, file, rfl, hok⟩
    · refine (origin_next h.1 hheld).imp_right ?_
      rintro ⟨call, file, rfl, hok⟩
      exact ⟨[], call, events, file, rfl, hok⟩
    · exact .inr ⟨e :: before, call, rest, file, rfl, hok⟩

/-- A store only grows: its files keep their names and bytes, each call adds exactly one file or
changes nothing, and whatever came to lie in the directory was added by a call, right in it. -/
theorem appendOnly_of_orderly {events : List StoreEvent} (h : store.Orderly d events) :
    (∀ before rest, events = before ++ rest → ∀ name bytes,
      (store.after d before).files.find? (store.place name) = some bytes →
        (store.after d events).files.find? (store.place name) = some bytes) ∧
    (∀ before call rest, events = before ++ .call call :: rest →
      store.Fulfils (store.after d before) call
        ((store.perform call).run (store.after d before))) ∧
    (∀ name bytes, (store.after d events).files.find? (store.place name) = some bytes →
      d.files.find? (store.place name) = some bytes ∨
        ∃ before call rest file, events = before ++ .call call :: rest ∧
          ((store.perform call).run (store.after d before)).1 = .ok file ∧
          file.place = store.place name ∧ FileName.Direct name) := by
  refine ⟨?_, ?_, fun name bytes hheld => origin_after h hheld⟩
  · rintro before rest rfl name bytes hheld
    rw [after_append]
    exact keeps_after (orderly_append.1 h).2 hheld
  · rintro before call rest rfl
    exact fulfils (orderly_append.1 h).2.1

/-- A store of rendered files. -/
def outputStore : FileStore := ⟨"out", "outputs", ""⟩

/-- Two renders that wait to be taken in. -/
def rendered : Disk := ⟨false, [("work/a.mp4", ⟨#[1, 2]⟩), ("work/b.mp4", ⟨#[3]⟩)]⟩

/-- The second render is refused under the name of the first and under a name that leads out of the
directory; it is then copied from another file system, and is gone. -/
def session : List StoreEvent :=
  [.call (.takeIn true "work/a.mp4" "promo.mp4" "video/mp4"),
   .call (.takeIn true "work/b.mp4" "promo.mp4" "video/mp4"),
   .call (.takeIn true "work/b.mp4" "../b.mp4" "video/mp4"),
   .call (.takeIn false "work/b.mp4" "b.mp4" "video/mp4"),
   .call (.takeIn false "work/b.mp4" "c.mp4" "video/mp4"),
   .call (.save "7f3a-01" "My Clip.MP4" "video/mp4" ⟨#[4]⟩)]

theorem appendOnly_of_session :
    outputStore.Orderly rendered session ∧
      (outputStore.after rendered session).files.find? "out/promo.mp4" = some ⟨#[1, 2]⟩ := by
  have horderly : outputStore.Orderly rendered session := by decide +kernel
  obtain ⟨hkeeps, _, _⟩ := appendOnly_of_orderly horderly
  exact ⟨horderly, hkeeps (session.take 1) (session.drop 1) rfl "promo.mp4" ⟨#[1, 2]⟩
    (by decide +kernel)⟩

example : (outputStore.after rendered session).files =
    [("out/promo.mp4", ⟨#[1, 2]⟩), ("out/b.mp4", ⟨#[3]⟩), ("out/7f3a-01.mp4", ⟨#[4]⟩)] := by
  decide +kernel

end FileStore

end RenderGateway
