import RenderGateway.Proofs.Render.OutputNames

/-!
# References to stored files

A file of a store is referred to by its name alone, behind the route with or without a slash, or by
its public address, and a query or a fragment may follow. All of these resolve to the place of the
file in its store, and another store does not take those that begin with a slash or an address.
Whatever else resolves does so to a file that lies in the directory of a store itself.
-/

namespace RenderGateway

open RenderGateway.OutputName (isKept)

/-- Text of letters, digits, dots, dashes and underscores. -/
def IsNameText (s : String) : Prop := ∀ c ∈ s.toList, isKept c = true

instance (s : String) : Decidable (IsNameText s) := List.decidableBAll _ s.toList

/-- Nothing, a query or a fragment. -/
def IsQuery (s : String) : Prop := ∀ c ∈ s.toList.head?, c = '?' ∨ c = '#'

/-- No address, or one of the web, whatever the case of its scheme. -/
def IsWebAddress (address : String) : Prop :=
  address = "" ∨ ∃ scheme rest, (Text.lower scheme = "http" ∨ Text.lower scheme = "https") ∧
    address = scheme ++ "://" ++ rest

namespace FileStore

/-- A store with a route and a public address that references can be told apart by. -/
structure Served (s : FileStore) : Prop where
  route_ne : s.route ≠ ""
  route_text : IsNameText s.route
  address : IsWebAddress s.publicAddress

/-- The references to a file: with its route, with the route but no slash, bare, and public. -/
def references (s : FileStore) (name : String) : List String :=
  [s.reference name, s!"{s.route}/{name}", name, s.publicUrl name]

/-- What a reference without an address names. -/
def behindRoute (s : FileStore) (cs : List Char) : List Char :=
  (Text.afterPrefix? (s.route.toList ++ ['/']) (cs.dropWhile (· = '/'))).getD cs

end FileStore

/-! ### Characters and ends of texts -/

section Texts

open RenderGateway.Text

theorem isBlank_of_isKept {c : Char} (h : isKept c = true) : isBlank c = false := by
  have hlt : c.toNat < 128 := by
    simp only [isKept, Bool.or_eq_true, decide_eq_true_eq] at h
    rcases h with ((h | rfl) | rfl) | rfl
    · exact FileName.toNat_lt_of_isAlphanum h
    all_goals decide
  have hall : ∀ n < 128, isKept (Char.ofNat n) = true → isBlank (Char.ofNat n) = false := by
    decide +kernel
  have hc := hall c.toNat hlt
  rw [Char.ofNat_toNat] at hc
  exact hc h

theorem isKept_of_toLower {c : Char} (h : c.toLower.isAlphanum = true) : isKept c = true := by
  have hc : c.isAlphanum = true := by
    by_cases hupper : c.isUpper = true
    · change ((c.isUpper || c.isLower) || c.isDigit) = true
      rw [hupper, Bool.true_or, Bool.true_or]
    · have hsame : c.toLower = c := dif_neg fun hrange => hupper (decide_eq_true hrange)
      rwa [hsame] at h
  simp [isKept, hc]

/-- Only what stands behind a text that neither begins nor ends with a blank is trimmed. -/
theorem trimChars_append {front rest : List Char} (hne : front ≠ [])
    (hhead : ∀ c ∈ front.head?, isBlank c = false)
    (hlast : ∀ c ∈ front.getLast?, isBlank c = false) :
    trimChars (front ++ rest) = front ++ trimEnd rest := by
  have hstart : trimStart (front ++ rest) = front ++ rest := by
    obtain ⟨c, cs, rfl⟩ := List.exists_cons_of_ne_nil hne
    rw [trimStart, List.cons_append, List.dropWhile_cons_of_neg (by simp [hhead c rfl])]
  have hend : front.reverse.dropWhile isBlank = front.reverse := by
    obtain ⟨c, cs, hcs⟩ := List.exists_cons_of_ne_nil (List.reverse_ne_nil_iff.2 hne)
    have hc : isBlank c = false := hlast c (by rw [← List.head?_reverse, hcs]; rfl)
    rw [hcs, List.dropWhile_cons_of_neg (by simp [hc])]
  rw [trimChars, hstart, trimEnd, trimEnd, dropEndWhile, dropEndWhile, List.reverse_append,
    List.dropWhile_append, hend]
  split
  · next hempty =>
    rw [List.isEmpty_iff] at hempty
    simp [hempty]
  · simp

/-- A query that is trimmed at its end is still one. -/
theorem head?_trimEnd {query : String} (h : IsQuery query) :
    ∀ c ∈ (trimEnd query.toList).head?, c = '?' ∨ c = '#' := by
  have hprefix : trimEnd query.toList <+: query.toList := by
    rw [trimEnd, dropEndWhile, ← List.reverse_suffix, List.reverse_reverse]
    exact List.dropWhile_suffix _
  intro c hc
  obtain ⟨rest, hrest⟩ := hprefix
  obtain ⟨cs, hcs⟩ := List.head?_eq_some_iff.1 hc
  refine h c ?_
  rw [← hrest, hcs]
  rfl

/-- The characters of names at the start of a text, and what ends them. -/
theorem span_of_afterPrefix? {word more cs rest : List Char} {c : Char}
    (hword : ∀ d ∈ word, isKept d = true) (hc : isKept c = false)
    (h : afterPrefix? (word ++ c :: more) cs = some rest) :
    cs.span isKept = (word, c :: (more ++ rest)) := by
  rw [FileStore.afterPrefix?_eq_some_iff] at h
  rw [h, List.append_assoc, List.span_eq_takeWhile_dropWhile, List.takeWhile_append_of_pos hword,
    List.dropWhile_append_of_pos hword, List.cons_append, List.takeWhile_cons_of_neg (by simp [hc]),
    List.dropWhile_cons_of_neg (by simp [hc]), List.append_nil]

/-- A name ends where a query, a fragment or a slash begins. -/
theorem span_name {name rest : List Char} (hname : ∀ c ∈ name, isKept c = true)
    (hrest : ∀ c ∈ rest.head?, isKept c = false) : (name ++ rest).span isKept = (name, rest) := by
  rw [List.span_eq_takeWhile_dropWhile, List.takeWhile_append_of_pos hname,
    List.dropWhile_append_of_pos hname]
  cases rest with
  | nil => simp
  | cons c cs => simp [hrest c rfl]

/-- An address of the web has a colon behind the name of its scheme. -/
theorem IsWebAddress.eq_or {address : String} (h : IsWebAddress address) :
    address = "" ∨ ∃ scheme rest, scheme ≠ [] ∧ (∀ c ∈ scheme, isKept c = true) ∧
      address.toList = scheme ++ ':' :: rest := by
  refine h.imp id ?_
  rintro ⟨scheme, rest, hscheme, rfl⟩
  have hlower : ∀ {text : String}, Text.lower scheme = text → scheme.toList.map Char.toLower =
      text.toList := by
    rintro _ rfl
    rw [Text.lower, String.toList_ofList]
  have hword : scheme.toList.map Char.toLower = "http".toList ∨
      scheme.toList.map Char.toLower = "https".toList := hscheme.imp hlower hlower
  refine ⟨scheme.toList, '/' :: '/' :: rest.toList, ?_, fun c hc => ?_, by simp⟩
  · intro hnil
    rw [hnil] at hword
    revert hword
    decide
  · have hmem := List.mem_map_of_mem (f := Char.toLower) hc
    have hletters : ∀ text ∈ ["http".toList, "https".toList],
        text.all Char.isAlphanum = true := by decide
    rcases hword with heq | heq
    · exact isKept_of_toLower (List.all_eq_true.1 (hletters _ (by simp)) _ (heq ▸ hmem))
    · exact isKept_of_toLower (List.all_eq_true.1 (hletters _ (by simp)) _ (heq ▸ hmem))

end Texts

namespace FileStore

variable {s : FileStore} {name : String}

theorem toList_reference : (s.reference name).toList =
    '/' :: (s.route.toList ++ '/' :: name.toList) := by
  simp [reference, toString]

/-- Text in which no colon follows a name at the start has no address before it. -/
theorem withoutRoute_of_span (h : IsWebAddress s.publicAddress) {cs : List Char}
    (hcolon : ∀ rest, (cs.span isKept).2 ≠ ':' :: rest) : s.withoutRoute cs = s.behindRoute cs := by
  unfold withoutRoute behindRoute
  rcases h.eq_or with hempty | ⟨scheme, rest, _, hscheme, haddress⟩
  · rw [if_pos hempty]
  · have hnone : Text.afterPrefix? s.publicAddress.toList cs = none := by
      rw [haddress]
      by_contra hsome
      obtain ⟨behind, hbehind⟩ := Option.ne_none_iff_exists'.1 hsome
      exact hcolon _ (by rw [span_of_afterPrefix? hscheme (by decide) hbehind])
    rw [hnone, Option.getD_none, ite_self]

/-- The public address in front of a reference does not count. -/
theorem withoutRoute_address (cs : List Char) :
    s.withoutRoute (s.publicAddress.toList ++ cs) = s.behindRoute cs := by
  unfold withoutRoute behindRoute
  by_cases hempty : s.publicAddress = ""
  · rw [if_pos hempty, hempty]
    rfl
  · have hbehind : Text.afterPrefix? s.publicAddress.toList (s.publicAddress.toList ++ cs) =
        some cs := afterPrefix?_eq_some_iff.2 rfl
    rw [if_neg hempty, hbehind, Option.getD_some]

theorem dropWhile_slash {word : List Char} (hword : ∀ c ∈ word, isKept c = true) (hne : word ≠ [])
    (cs : List Char) : (word ++ cs).dropWhile (· = '/') = word ++ cs := by
  obtain ⟨c, rest, rfl⟩ := List.exists_cons_of_ne_nil hne
  have hc : c ≠ '/' := by
    rintro rfl
    exact absurd (hword '/' List.mem_cons_self) (by decide)
  rw [List.cons_append, List.dropWhile_cons_of_neg (by simp [hc])]

namespace Served

variable (hs : s.Served)
include hs

theorem toList_route_ne : s.route.toList ≠ [] := by simpa using hs.route_ne

/-- The route goes with the slash behind it, and with a slash before it. -/
theorem behindRoute_route (cs : List Char) :
    s.behindRoute (s.route.toList ++ '/' :: cs) = cs ∧
      s.behindRoute ('/' :: (s.route.toList ++ '/' :: cs)) = cs := by
  have hbehind : Text.afterPrefix? (s.route.toList ++ ['/']) (s.route.toList ++ '/' :: cs) =
      some cs := afterPrefix?_eq_some_iff.2 (by simp)
  unfold behindRoute
  rw [List.dropWhile_cons_of_pos (by simp), dropWhile_slash hs.route_text hs.toList_route_ne,
    hbehind]
  exact ⟨rfl, rfl⟩

/-- Text that does not begin with the route is left alone. -/
theorem behindRoute_of_span {cs : List Char}
    (h : ∀ rest, (cs.dropWhile (· = '/')).span isKept ≠ (s.route.toList, '/' :: rest)) :
    s.behindRoute cs = cs := by
  have hnone : Text.afterPrefix? (s.route.toList ++ ['/']) (cs.dropWhile (· = '/')) = none := by
    by_contra hsome
    obtain ⟨behind, hbehind⟩ := Option.ne_none_iff_exists'.1 hsome
    exact h _ (span_of_afterPrefix? hs.route_text (by decide) hbehind)
  rw [behindRoute, hnone, Option.getD_none]

/-- The route of another store is left in its place. -/
theorem behindRoute_other {other : FileStore} (ho : other.Served) (h : other.route ≠ s.route)
    (cs : List Char) : other.behindRoute ('/' :: (s.route.toList ++ '/' :: cs)) =
      '/' :: (s.route.toList ++ '/' :: cs) := by
  refine ho.behindRoute_of_span fun behind hspan => h ?_
  rw [List.dropWhile_cons_of_pos (by simp), dropWhile_slash hs.route_text hs.toList_route_ne,
    span_name hs.route_text (by simp [isKept])] at hspan
  exact String.toList_inj.1 (Prod.mk.inj hspan).1.symm

end Served

/-! ### References -/

/-- What is left of a reference is cut at its query or fragment. -/
theorem resolve?_eq_some (hname : IsNameText name) (hplain : FileName.isPlain name = true)
    {reference : String} {rest : List Char}
    (h : s.withoutRoute (Text.trimChars reference.toList) = name.toList ++ rest)
    (hrest : ∀ c ∈ rest.head?, c = '?' ∨ c = '#') :
    s.resolve? reference = some (s.place name) := by
  have hkept : ∀ c ∈ name.toList, decide (c ≠ '?' ∧ c ≠ '#') = true := by
    intro c hc
    refine decide_eq_true ⟨?_, ?_⟩
    all_goals
      rintro rfl
      exact absurd (hname _ hc) (by decide)
  have hcut : (name.toList ++ rest).takeWhile (fun c => decide (c ≠ '?' ∧ c ≠ '#')) =
      name.toList := by
    rw [List.takeWhile_append_of_pos hkept]
    cases rest with
    | nil => simp
    | cons c cs =>
      have hstop : decide (c ≠ '?' ∧ c ≠ '#') = false := by
        rcases hrest c rfl with rfl | rfl <;> decide
      simp only [List.takeWhile_cons, hstop, Bool.false_eq_true, if_false, List.append_nil]
  have hchars : FileName.isPlainChars name.toList = true := hplain
  simp only [resolve?, nameOf?, h, hcut, hchars, if_true, String.ofList_toList, Option.map_some]

theorem resolve?_eq_none {reference : String} {cs : List Char}
    (h : s.withoutRoute (Text.trimChars reference.toList) = '/' :: cs) :
    s.resolve? reference = none := by
  have hcut : ('/' :: cs).takeWhile (fun c => decide (c ≠ '?' ∧ c ≠ '#')) =
      '/' :: cs.takeWhile (fun c => decide (c ≠ '?' ∧ c ≠ '#')) :=
    List.takeWhile_cons_of_pos (by decide)
  simp only [resolve?, nameOf?, h, hcut]
  simp [FileName.isPlainChars]

/-- The name that a text gives to a file of a store names one in its directory. -/
theorem direct_of_nameOf? {text : String} (h : s.nameOf? text = some name) :
    FileName.Direct name := by
  unfold nameOf? at h
  dsimp only at h
  split at h
  · next hplain =>
    cases h
    exact FileName.isPlain_iff.1 (by rwa [FileName.isPlain, String.toList_ofList])
  · cases h

/-- A reference is trimmed in its query only, as it ends with the name before. -/
theorem trimChars_reference (hname : IsNameText name) (hne : name ≠ "") {front : List Char}
    (hfront : ∀ c ∈ front.head?, Text.isBlank c = false) {reference query : String}
    (h : reference.toList = front ++ name.toList) :
    Text.trimChars (reference ++ query).toList =
      front ++ (name.toList ++ Text.trimEnd query.toList) := by
  have hchars : name.toList ≠ [] := by simpa using hne
  have hblank : ∀ c ∈ name.toList, Text.isBlank c = false := fun c hc =>
    isBlank_of_isKept (hname c hc)
  have hhead : ∀ c ∈ (front ++ name.toList).head?, Text.isBlank c = false := by
    intro c hc
    cases front with
    | nil => exact hblank c (List.mem_of_mem_head? hc)
    | cons d ds => exact hfront c hc
  have hlast : ∀ c ∈ (front ++ name.toList).getLast?, Text.isBlank c = false := by
    intro c hc
    rw [List.getLast?_append_of_ne_nil _ hchars] at hc
    exact hblank c (List.mem_of_mem_getLast? hc)
  rw [String.toList_append, h, trimChars_append (by simp [hchars]) hhead hlast, List.append_assoc]

/-- Text without an address before it: no colon comes before a slash, a query or a fragment. -/
theorem withoutRoute_of_name (h : IsWebAddress s.publicAddress) {word rest : List Char}
    (hword : ∀ c ∈ word, isKept c = true)
    (hrest : ∀ c ∈ rest.head?, c = '/' ∨ c = '?' ∨ c = '#') :
    s.withoutRoute (word ++ rest) = s.behindRoute (word ++ rest) := by
  have hodd : ∀ c ∈ rest.head?, isKept c = false := by
    intro c hc
    rcases hrest c hc with rfl | rfl | rfl <;> decide
  refine withoutRoute_of_span h fun behind hbehind => ?_
  rw [span_name hword hodd] at hbehind
  have hcolon := hrest ':' (by rw [show rest = ':' :: behind from hbehind]; rfl)
  revert hcolon
  decide

theorem withoutRoute_slash (h : IsWebAddress s.publicAddress) (cs : List Char) :
    s.withoutRoute ('/' :: cs) = s.behindRoute ('/' :: cs) := by
  have hnone : ∀ c ∈ ([] : List Char), isKept c = true := nofun
  exact withoutRoute_of_name h hnone (by simp)

section Forms

variable (hname : IsNameText name) (hne : name ≠ "") (query : String)
include hname hne

theorem trimChars_route : Text.trimChars (s.reference name ++ query).toList =
    '/' :: (s.route.toList ++ '/' :: (name.toList ++ Text.trimEnd query.toList)) := by
  have hfront : ∀ c ∈ ('/' :: (s.route.toList ++ ['/'])).head?, Text.isBlank c = false := by
    rintro c ⟨⟩
    decide
  rw [trimChars_reference hname hne hfront (by simp [toList_reference])]
  simp

theorem trimChars_publicUrl (h : IsWebAddress s.publicAddress) :
    Text.trimChars (s.publicUrl name ++ query).toList = s.publicAddress.toList ++
      '/' :: (s.route.toList ++ '/' :: (name.toList ++ Text.trimEnd query.toList)) := by
  have hfront : ∀ c ∈ (s.publicAddress.toList ++ '/' :: (s.route.toList ++ ['/'])).head?,
      Text.isBlank c = false := by
    intro c hc
    rcases h.eq_or with hempty | ⟨scheme, rest, hscheme, hletters, haddress⟩
    · rw [hempty] at hc
      cases hc
      decide
    · obtain ⟨d, ds, rfl⟩ := List.exists_cons_of_ne_nil hscheme
      rw [haddress] at hc
      cases hc
      exact isBlank_of_isKept (hletters _ List.mem_cons_self)
  rw [trimChars_reference hname hne hfront (by simp [publicUrl, toList_reference])]
  simp

/-- Every reference to a file names the file, in front of what is left of the query. -/
theorem Served.withoutRoute_references (hs : s.Served) (hquery : IsQuery query) {reference : String}
    (h : reference ∈ s.references name) :
    s.withoutRoute (Text.trimChars (reference ++ query).toList) =
      name.toList ++ Text.trimEnd query.toList := by
  have hbehind := hs.behindRoute_route (name.toList ++ Text.trimEnd query.toList)
  have hrest := head?_trimEnd hquery
  simp only [references, List.mem_cons, List.not_mem_nil, or_false] at h
  rcases h with rfl | rfl | rfl | rfl
  · rw [trimChars_route hname hne, withoutRoute_slash hs.address]
    exact hbehind.2
  · have hfront : ∀ c ∈ (s.route.toList ++ ['/']).head?, Text.isBlank c = false := by
      intro c hc
      rw [List.head?_append_of_ne_nil _ hs.toList_route_ne] at hc
      exact isBlank_of_isKept (hs.route_text c (List.mem_of_mem_head? hc))
    rw [trimChars_reference hname hne hfront (by simp [toString]), List.append_assoc]
    exact (withoutRoute_of_name hs.address hs.route_text (by simp)).trans hbehind.1
  · have hfront : ∀ c ∈ ([] : List Char).head?, Text.isBlank c = false := nofun
    have hodd : ∀ c ∈ (Text.trimEnd query.toList).head?, isKept c = false := by
      intro c hc
      rcases hrest c hc with rfl | rfl <;> decide
    rw [trimChars_reference hname hne hfront rfl, List.nil_append,
      withoutRoute_of_name hs.address hname fun c hc => .inr (hrest c hc)]
    refine hs.behindRoute_of_span fun rest hspan => ?_
    -- a route would have a slash behind it, which no query or fragment begins with
    rw [dropWhile_slash hname (by simpa using hne), span_name hname hodd] at hspan
    have hslash := hrest '/' (by rw [(Prod.mk.inj hspan).2]; rfl)
    revert hslash
    decide
  · rw [trimChars_publicUrl hname hne query hs.address, withoutRoute_address]
    exact hbehind.2

end Forms

/-- Every reference to a file resolves to its place in its store, whatever query or fragment
follows. A store of another route takes neither the reference with the route nor, at the same
address, the public one. Any text that resolves in a store does so to a file that lies in the
directory of the store itself. -/
theorem resolve?_references {s : FileStore} (hs : s.Served) {name query : String}
    (hname : IsNameText name) (hplain : FileName.isPlain name = true) (hquery : IsQuery query) :
    (∀ reference ∈ s.references name,
      s.resolve? (reference ++ query) = some (FileName.join s.directory name)) ∧
    (∀ other : FileStore, other.Served → other.route ≠ s.route →
      other.resolve? (s.reference name ++ query) = none ∧
      (other.publicAddress = s.publicAddress →
        other.resolve? (s.publicUrl name ++ query) = none)) ∧
    ∀ (store : FileStore) (text path : String), store.resolve? text = some path →
      ∃ part, FileName.Direct part ∧ path = FileName.join store.directory part := by
  have hne : name ≠ "" := (FileName.isPlain_iff.1 hplain).ne_empty
  refine ⟨fun reference hreference => ?_, fun other ho hroute => ⟨?_, fun haddress => ?_⟩,
    fun store text path hpath => ?_⟩
  · exact resolve?_eq_some hname hplain
      (hs.withoutRoute_references hname hne query hquery hreference) (head?_trimEnd hquery)
  · have hleft : other.withoutRoute (Text.trimChars (s.reference name ++ query).toList) =
        '/' :: (s.route.toList ++ '/' :: (name.toList ++ Text.trimEnd query.toList)) := by
      rw [trimChars_route hname hne, withoutRoute_slash ho.address]
      exact hs.behindRoute_other ho hroute _
    exact resolve?_eq_none hleft
  · have hleft : other.withoutRoute (Text.trimChars (s.publicUrl name ++ query).toList) =
        '/' :: (s.route.toList ++ '/' :: (name.toList ++ Text.trimEnd query.toList)) := by
      rw [trimChars_publicUrl hname hne query hs.address, ← haddress, withoutRoute_address]
      exact hs.behindRoute_other ho hroute _
    exact resolve?_eq_none hleft
  · obtain ⟨part, hpart, rfl⟩ := Option.map_eq_some_iff.1 hpath
    exact ⟨part, direct_of_nameOf? hpart, rfl⟩

/-- The stores of a gateway with a public address. -/
def publicSettings : StorageSettings :=
  { StorageSettings.default with publicAddress := "https://render.example.com" }

/-- A file that is named like the route of its store, with the route of the other in its query. -/
theorem resolve?_references_uploads :
    (∀ reference ∈ publicSettings.uploadStore.references "uploads",
      publicSettings.uploadStore.resolve? (reference ++ "?/outputs/a.mp4 ") =
        some "./data/uploads/uploads") ∧
    publicSettings.outputStore.resolve? "/uploads/uploads?/outputs/a.mp4 " = none ∧
    publicSettings.outputStore.resolve?
      "https://render.example.com/uploads/uploads?/outputs/a.mp4 " = none := by
  have haddress : IsWebAddress publicSettings.publicAddress :=
    .inr ⟨"https", "render.example.com", by decide, by decide⟩
  have huploads : publicSettings.uploadStore.Served := ⟨by decide, by decide, haddress⟩
  have houtputs : publicSettings.outputStore.Served := ⟨by decide, by decide, haddress⟩
  have hquery : IsQuery "?/outputs/a.mp4 " := by
    rintro c ⟨⟩
    exact .inl rfl
  obtain ⟨hresolve, hother, _⟩ :=
    resolve?_references huploads (by decide : IsNameText "uploads") (by decide) hquery
  obtain ⟨hreference, hpublic⟩ := hother publicSettings.outputStore houtputs (by decide)
  exact ⟨hresolve, hreference, hpublic rfl⟩

end FileStore

end RenderGateway
