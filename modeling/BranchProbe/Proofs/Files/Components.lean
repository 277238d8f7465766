/-
  Paths and their components.

  1. The parts of a text are what lies between its slashes (`parts_append_slash`), so inner components
     that are put together with slashes come apart again.
  2. `Path.Regular` describes the components of paths: the root or `.` at the start if at all, and
     names that could not be read as anything else.  `components_ofComponents` is the crux: regular
     components are those of the path that is put together from them.
  3. The first part always counts (`components_eq_leading`).  Behind it some spellings mean the same
     (`components_spelling`).
  4. So a file is directly inside a directory just if it has one component more
     (`inside_iff`), however the two paths are spelled.
  5. `splitName_eq_iff`: a name is split at its last point, unless nothing stands before it.
-/
import BranchProbe.Files.MemoryStore
import Mathlib.Data.List.Basic

namespace BranchProbe

/-! ## Parts -/

/-- The component stands for a part that counts. -/
def Component.Inner : Component → Prop
  | .root | .here => False
  | .up => True
  | .name s => '/' ∉ s.toList ∧ s.toList ≠ [] ∧ s.toList ≠ ['.'] ∧ s.toList ≠ ['.', '.']

namespace Path

theorem parts_of_not_mem {cs : List Char} (h : '/' ∉ cs) : parts cs = [cs] := by
  induction cs with
  | nil => rfl
  | cons c cs ih =>
    rw [List.mem_cons, not_or] at h
    rw [parts, if_neg (Ne.symm h.1), ih h.2]

theorem parts_ne_nil (cs : List Char) : parts cs ≠ [] := by
  cases cs with
  | nil => simp [parts]
  | cons c cs =>
    rw [parts]
    split
    · simp
    · split <;> simp

/-- A slash ends a part and starts the next one. -/
theorem parts_append_slash (cs rest : List Char) :
    parts (cs ++ '/' :: rest) = parts cs ++ parts rest := by
  induction cs with
  | nil => rfl
  | cons c cs ih =>
    rw [List.cons_append, parts, parts, ih]
    split
    · rfl
    · cases hparts : parts cs with
      | nil => exact absurd hparts (parts_ne_nil cs)
      | cons p ps => rfl

theorem parts_append {cs : List Char} (h : '/' ∉ cs) (rest : List Char) :
    parts (cs ++ '/' :: rest) = cs :: parts rest := by
  rw [parts_append_slash, parts_of_not_mem h, List.singleton_append]

theorem not_mem_of_mem_parts {part : List Char} : ∀ {cs : List Char}, part ∈ parts cs → '/' ∉ part
  | [], h => by
    rw [List.mem_singleton.1 h]
    exact List.not_mem_nil
  | c :: cs, h => by
    rw [parts] at h
    split at h
    · rcases List.mem_cons.1 h with rfl | h
      · exact List.not_mem_nil
      · exact not_mem_of_mem_parts h
    · next hc =>
      split at h
      · next hparts => exact absurd hparts (parts_ne_nil cs)
      · next p ps hparts =>
        rcases List.mem_cons.1 h with rfl | h
        · have hp : p ∈ parts cs := by
            rw [hparts]
            exact List.mem_cons_self
          rw [List.mem_cons, not_or]
          exact ⟨Ne.symm hc, not_mem_of_mem_parts hp⟩
        · have hp : part ∈ parts cs := by
            rw [hparts]
            exact List.mem_cons_of_mem _ h
          exact not_mem_of_mem_parts hp

/-! ## Inner components -/

/-- A part that is neither empty nor a point is a component that may stand anywhere in a path. -/
theorem inner_component {part : List Char} (hslash : '/' ∉ part) (hne : part ≠ [])
    (hhere : part ≠ ['.']) : (component part).Inner := by
  rw [component]
  split
  · trivial
  · next hup => simpa [Component.Inner] using ⟨hslash, hne, hhere, hup⟩

/-- All components behind the first one are of this kind, since empty parts and points are
    dropped there. -/
theorem inner_of_mem_innerComponents {ps : List (List Char)} (h : ∀ p ∈ ps, '/' ∉ p)
    {c : Component} (hc : c ∈ innerComponents ps) : c.Inner := by
  obtain ⟨part, hpart, rfl⟩ := List.mem_map.1 hc
  obtain ⟨hmem, hcounts⟩ := List.mem_filter.1 hpart
  simp only [ne_eq, Bool.and_eq_true, decide_eq_true_eq] at hcounts
  exact inner_component (h part hmem) hcounts.1 hcounts.2

/-- A part that is neither empty nor `.` counts. -/
theorem innerComponents_cons {part : List Char} (hne : part ≠ []) (hhere : part ≠ ['.'])
    (ps : List (List Char)) :
    innerComponents (part :: ps) = component part :: innerComponents ps := by
  simp [innerComponents, hne, hhere]

/-- The part for an inner component is one, it counts, and it stands for the component. -/
theorem text_of_inner {c : Component} (h : c.Inner) :
    '/' ∉ c.text.toList ∧ c.text.toList ≠ [] ∧ c.text.toList ≠ ['.']
      ∧ component c.text.toList = c := by
  cases c with
  | root => exact absurd h id
  | here => exact absurd h id
  | up => exact ⟨by decide, by decide, by decide, rfl⟩
  | name s =>
    obtain ⟨hslash, hne, hhere, hup⟩ := h
    exact ⟨hslash, hne, hhere, by rw [Component.text, component, if_neg hup, String.ofList_toList]⟩

/-- The text of some components between slashes. -/
def between (cs : List Component) : List Char :=
  ("/".intercalate (cs.map Component.text)).toList

theorem between_singleton (c : Component) : between [c] = c.text.toList := by
  simp [between]

/-- Components are written with slashes between them and none at the end. -/
theorem between_cons (c c' : Component) (rest : List Component) :
    between (c :: c' :: rest) = c.text.toList ++ '/' :: between (c' :: rest) := by
  simp [between, String.toList_intercalate, List.intercalate]

/-- The first component is the first part, and the others are those of the other parts. -/
theorem parts_between : ∀ {c : Component} {rest : List Component}, '/' ∉ c.text.toList →
    (∀ d ∈ rest, d.Inner) →
    ∃ ps, parts (between (c :: rest)) = c.text.toList :: ps ∧ innerComponents ps = rest
  | c, [], hslash, _ => by
    rw [between_singleton, parts_of_not_mem hslash]
    exact ⟨[], rfl, rfl⟩
  | c, d :: rest, hslash, hrest => by
    obtain ⟨hslash', hne, hhere, hd⟩ := text_of_inner (hrest d List.mem_cons_self)
    have hinner : ∀ c ∈ rest, c.Inner := fun c hc => hrest c (List.mem_cons_of_mem _ hc)
    obtain ⟨ps, hparts, hps⟩ := parts_between hslash' hinner
    rw [between_cons, parts_append hslash, hparts]
    exact ⟨d.text.toList :: ps, rfl, by rw [innerComponents_cons hne hhere, hd, hps]⟩

/-- Inner components that are put together come apart again: none of them has a slash in it, is
    empty or is a point, so each is one part. -/
theorem innerComponents_between {cs : List Component} (h : ∀ c ∈ cs, c.Inner) :
    innerComponents (parts (between cs)) = cs := by
  cases cs with
  | nil => rfl
  | cons c rest =>
    obtain ⟨hslash, hne, hhere, hc⟩ := text_of_inner (h c List.mem_cons_self)
    obtain ⟨ps, hparts, hps⟩ := parts_between hslash fun d hd => h d (List.mem_cons_of_mem _ hd)
    rw [hparts, innerComponents_cons hne hhere, hc, hps]

/-! ## Whole paths -/

/-- The components of a path: inner ones, after the root or `.` or nothing. -/
def Regular (cs : List Component) : Prop :=
  ∃ start inner, cs = start ++ inner ∧ (start = [] ∨ start = [.root] ∨ start = [.here])
    ∧ ∀ c ∈ inner, c.Inner

/-- The components of any path are regular, so paths can be told by them. -/
theorem regular_components (p : Path) : Regular p.components := by
  have hinner : ∀ ps cs, (∀ part ∈ ps, part ∈ parts cs) → ∀ c ∈ innerComponents ps, c.Inner :=
    fun ps cs hsub c hc =>
      inner_of_mem_innerComponents (fun part hpart => not_mem_of_mem_parts (hsub part hpart)) hc
  rw [components]
  split
  · exact ⟨[], [], rfl, .inl rfl, by simp⟩
  · next cs _ =>
    exact ⟨[.root], _, rfl, .inr (.inl rfl), hinner (parts cs) cs fun _ h => h⟩
  · next cs _ _ =>
    split
    · next rest hparts =>
      refine ⟨[.here], _, rfl, .inr (.inr rfl), hinner rest p.text.toList fun part h => ?_⟩
      rw [hparts]
      exact List.mem_cons_of_mem _ h
    · exact ⟨[], _, rfl, .inl rfl, hinner _ p.text.toList fun _ h => h⟩

theorem Regular.dropLast {cs : List Component} (h : Regular cs) : Regular cs.dropLast := by
  obtain ⟨start, inner, rfl, hstart, hinner⟩ := h
  rcases List.eq_nil_or_concat' inner with rfl | ⟨inner, c, rfl⟩
  · refine ⟨[], [], ?_, .inl rfl, by simp⟩
    rcases hstart with rfl | rfl | rfl <;> rfl
  · rw [← List.append_assoc, List.dropLast_concat]
    exact ⟨start, inner, rfl, hstart, fun d hd => hinner d (List.mem_append_left _ hd)⟩

/-- The components of a path whose first part is not empty.  A point counts as a component at the
    start only, so the two cases differ in the first part and not in the rest. -/
theorem components_of_parts {p : Path} {part : List Char} {ps : List (List Char)}
    (hparts : parts p.text.toList = part :: ps) (hne : part ≠ []) :
    p.components = if part = ['.'] then .here :: innerComponents ps
      else innerComponents (part :: ps) := by
  rw [components]
  split
  · next htext =>
    rw [htext] at hparts
    exact absurd (List.cons.inj hparts).1.symm hne
  · next cs htext =>
    rw [htext, parts, if_pos rfl] at hparts
    exact absurd (List.cons.inj hparts).1.symm hne
  · next cs _ _ =>
    rw [hparts]
    split
    · next rest hrest =>
      obtain ⟨rfl, rfl⟩ := List.cons.inj hrest
      rw [if_pos rfl]
    · next hother => 
      rw [if_neg]
      rintro rfl
      exact hother ps rfl

/-- Regular components are those of the path that is put together from them.  So a path may be
    replaced by the one spelling that its components give. -/
theorem components_ofComponents {cs : List Component} (h : Regular cs) :
    (ofComponents cs).components = cs := by
  obtain ⟨start, inner, rfl, rfl | rfl | rfl, hinner⟩ := h
  · cases inner with
    | nil => rfl
    | cons c rest =>
      obtain ⟨hslash, hne, hhere, hc⟩ := text_of_inner (hinner c List.mem_cons_self)
      obtain ⟨ps, hparts, hps⟩ :=
        parts_between hslash fun d hd => hinner d (List.mem_cons_of_mem _ hd)
      have htext : (ofComponents (c :: rest)).text.toList = between (c :: rest) := by
        cases c with
        | root => exact absurd (hinner .root List.mem_cons_self) id
        | _ => rfl
      rw [← htext] at hparts
      rw [List.nil_append, components_of_parts hparts hne, if_neg hhere,
        innerComponents_cons hne hhere, hc, hps]
  · have htext : (ofComponents (.root :: inner)).text.toList = '/' :: between inner := by
      simp [ofComponents, between]
    rw [List.singleton_append, components, htext]
    exact congrArg (Component.root :: ·) (innerComponents_between hinner)
  · obtain ⟨ps, hparts, hps⟩ := parts_between (c := .here) (by decide) hinner
    rw [List.singleton_append, components_of_parts (p := ofComponents (.here :: inner)) hparts
      (by decide), if_pos (by decide), hps]

/-! ## Spellings -/

/-- The component that the first part of a text stands for. -/
def leading (part : List Char) : Component :=
  if part = [] then .root else if part = ['.'] then .here else component part

/-- The first part always counts; a path that starts with a slash has an empty one. -/
theorem components_eq_leading {p : Path} (h : p.text.toList ≠ []) {part : List Char}
    {ps : List (List Char)} (hparts : parts p.text.toList = part :: ps) :
    p.components = leading part :: innerComponents ps := by
  by_cases hne : part = []
  · cases htext : p.text.toList with
    | nil => exact absurd htext h
    | cons c cs =>
      rw [htext, parts] at hparts
      split at hparts
      · next hc =>
        rw [components, htext, hc, ← (List.cons.inj hparts).2, leading, if_pos hne]
        rfl
      · split at hparts
        · exact absurd hne (by rw [← (List.cons.inj hparts).1]; simp)
        · exact absurd hne (by rw [← (List.cons.inj hparts).1]; simp)
  · rw [components_of_parts hparts hne, leading, if_neg hne]
    split
    · rfl
    · next hhere => rw [innerComponents_cons hne hhere]

/-- The components of a path below another one: those of the upper path, and then all parts of
    the lower one, of which the first is no longer a leading part. -/
theorem components_append_slash {a : String} {part : List Char} {ps : List (List Char)}
    (hparts : parts a.toList = part :: ps) (b : String) :
    components ⟨a ++ "/" ++ b⟩ = leading part :: innerComponents (ps ++ parts b.toList) := by
  have htext : (a ++ "/" ++ b).toList = a.toList ++ '/' :: b.toList := by simp
  refine components_eq_leading (by simp [htext]) ?_
  rw [htext, parts_append_slash, hparts, List.cons_append]

/-- A slash after a slash, a part `.` after a slash, and a slash at the end change nothing. -/
theorem components_spelling (a b : String) :
    components ⟨a ++ "//" ++ b⟩ = components ⟨a ++ "/" ++ b⟩
    ∧ components ⟨a ++ "/./" ++ b⟩ = components ⟨a ++ "/" ++ b⟩
    ∧ (a ≠ "" → components ⟨a ++ "/"⟩ = components ⟨a⟩) := by
  obtain ⟨part, ps, hparts⟩ := List.exists_cons_of_ne_nil (parts_ne_nil a.toList)
  refine ⟨?_, ?_, fun hne => ?_⟩
  · have htext : a ++ "//" ++ b = a ++ "/" ++ ("/" ++ b) :=
      String.toList_inj.1 (by simp)
    have hslash : parts ("/" ++ b).toList = [] :: parts b.toList := by simp [parts]
    rw [htext, components_append_slash hparts, components_append_slash hparts, hslash]
    simp [innerComponents]
  · have htext : a ++ "/./" ++ b = a ++ "/" ++ ("./" ++ b) :=
      String.toList_inj.1 (by simp)
    have hhere : parts ("./" ++ b).toList = ['.'] :: parts b.toList := by simp [parts]
    rw [htext, components_append_slash hparts, components_append_slash hparts, hhere]
    simp [innerComponents]
  · have htext : a ++ "/" = a ++ "/" ++ "" := by rw [String.append_empty]
    have hchars : (⟨a⟩ : Path).text.toList ≠ [] := by simpa using hne
    rw [htext, components_append_slash hparts, components_eq_leading hchars hparts]
    simp [innerComponents, parts]

/-- A path that starts with `./` has `.` for its first component. -/
theorem components_dot_slash (a : String) :
    (components ⟨"./" ++ a⟩).head? = some .here := by
  have hdot : parts ".".toList = [['.']] := rfl
  have htext : "./" ++ a = "." ++ "/" ++ a := rfl
  rw [htext, components_append_slash hdot]
  rfl

/-! ## Files inside a directory -/

/-- The path has one component more than the directory. -/
def IsIn (dir p : Path) : Prop := ∃ c, c ≠ .root ∧ p.components = dir.components ++ [c]

/-- A file is directly inside a directory just if it has one component more. -/
theorem inside_iff {dir p : Path} : MemoryStore.inside dir p = true ↔ IsIn dir p := by
  have hregular := (regular_components p).dropLast
  rw [MemoryStore.inside, parent?, IsIn]
  generalize p.components = cs at *
  rcases List.eq_nil_or_concat' cs with rfl | ⟨cs, c, rfl⟩
  · simp
  · rw [List.dropLast_concat] at hregular
    have hlast : (∃ c', c' ≠ Component.root ∧ cs ++ [c] = dir.components ++ [c'])
        ↔ c ≠ .root ∧ cs = dir.components := by
      constructor
      · rintro ⟨c', hc', heq⟩
        obtain ⟨rfl, heq'⟩ := List.append_inj' heq rfl
        obtain rfl := List.singleton_inj.1 heq'
        exact ⟨hc', rfl⟩
      · rintro ⟨hc, rfl⟩
        exact ⟨c, hc, rfl⟩
    have hsame : (ofComponents cs).same dir = true ↔ cs = dir.components := by
      rw [same, components_ofComponents hregular, beq_iff_eq]
    rw [hlast, List.getLast?_concat, List.dropLast_concat]
    cases c with
    | root => simp
    | _ => simpa using hsame

/-! ## Stems and extensions -/

theorem splitName_of_not_mem {name : List Char} (h : '.' ∉ name) : splitName name = (name, none) := by
  have hall : (name.reverse ++ []).takeWhile (· ≠ '.') = name.reverse ++ [] :=
    List.takeWhile_append_of_pos fun c hc =>
      decide_eq_true fun heq => h (heq ▸ List.mem_reverse.1 hc)
  rw [List.append_nil] at hall
  rw [splitName, hall]
  simp

/-- A name is split at its last point.  What stands after it has no further point, and a name
    that only starts with a point has no extension. -/
theorem splitName_append (stem : List Char) {extension : List Char} (h : '.' ∉ extension) :
    splitName (stem ++ '.' :: extension)
      = if stem = [] then ('.' :: extension, none) else (stem, some extension) := by
  have htail : (stem ++ '.' :: extension).reverse.takeWhile (· ≠ '.') = extension.reverse := by
    rw [List.reverse_append, List.reverse_cons, List.append_assoc, List.takeWhile_append_of_pos]
    · simp
    · intro c hc
      exact decide_eq_true fun heq => h (heq ▸ List.mem_reverse.1 hc)
  have hlength : (stem ++ '.' :: extension).length - extension.length - 1 = stem.length := by
    simp only [List.length_append, List.length_cons]
    omega
  have hlonger : extension.length ≠ (stem ++ '.' :: extension).length := by
    simp only [List.length_append, List.length_cons]
    omega
  rw [splitName, htail, List.reverse_reverse]
  rw [hlength, List.take_left, decide_eq_false hlonger]
  by_cases hstem : stem = []
  · rw [hstem]
    simp
  · rw [if_neg hstem]
    simp [hstem]

/-- A name is split at its last point, unless nothing stands before it.  This is
    `splitName_append` read in both directions. -/
theorem splitName_eq_iff {name stem extension : List Char} :
    splitName name = (stem, some extension)
      ↔ stem ≠ [] ∧ '.' ∉ extension ∧ name = stem ++ '.' :: extension := by
  constructor
  · intro h
    by_cases hpoint : '.' ∈ name
    · obtain ⟨ext, rest, hreverse, hext⟩ :=
        List.eq_append_cons_of_mem (List.mem_reverse.2 hpoint)
      obtain rfl : name = rest.reverse ++ '.' :: ext.reverse := by
        rw [← List.reverse_reverse name, hreverse]
        simp
      rw [splitName_append _ (by simpa using hext)] at h
      split at h
      · cases h
      · next hne =>
        obtain ⟨rfl, hsome⟩ := Prod.mk.inj h
        obtain rfl := Option.some.inj hsome
        exact ⟨hne, by simpa using hext, rfl⟩
    · rw [splitName_of_not_mem hpoint] at h
      cases h
  · rintro ⟨hstem, hext, rfl⟩
    rw [splitName_append stem hext, if_neg hstem]

/-- The file's name is the stem, a point and the extension.  The extension is the shortest one,
    so it has no point in it, and the stem may have some. -/
theorem stem_extension_iff {p : Path} {stem extension : String} :
    p.stem? = some stem ∧ p.extension? = some extension
      ↔ stem ≠ "" ∧ '.' ∉ extension.toList
        ∧ p.fileName? = some (stem ++ "." ++ extension) := by
  rw [stem?, extension?]
  cases p.fileName? with
  | none => simp
  | some name =>
    have hname : name = stem ++ "." ++ extension
        ↔ name.toList = stem.toList ++ '.' :: extension.toList := by
      rw [String.ext_iff]
      simp
    have hstem : stem ≠ "" ↔ stem.toList ≠ [] := by simp
    rw [Option.some_inj, hname, hstem, ← splitName_eq_iff]
    rw [Option.map_some, Option.bind_some, Option.some_inj]
    cases splitName name.toList with
    | mk a b =>
      cases b with
      | none => simp
      | some b =>
        constructor
        · rintro ⟨rfl, hb⟩
          obtain rfl := Option.some.inj hb
          rw [String.toList_ofList, String.toList_ofList]
        · intro h
          obtain ⟨rfl, hb⟩ := Prod.mk.inj h
          obtain rfl := Option.some.inj hb
          exact ⟨String.ofList_toList, congrArg some String.ofList_toList⟩

end Path

end BranchProbe
