/-
  What is accepted was scanned to its end.

  1. `Syntax.Sound` is what every scan gives: nothing can be read for its value that cannot be
     passed over, and where a list or an object stops inside its last part, that part has a fault.
  2. `valueAt_sound` is the crux, with one theorem for each of the three mutual scans: the tree is
     sound, a scan that cannot go on leaves a fault in it, and one that goes on has less of the
     text before it.  So two steps of fuel for each character are enough.
  3. A decoder is `Careful` if whatever it accepts can be passed over.  All shapes of decoders
     are, given that their parts are; `exists_scan_of_decode` is the conclusion for a document: it
     was scanned to its end, into a tree without fault.
-/
import BranchProbe.Json.Decoder
import BranchProbe.Proofs.Json.Progress

namespace BranchProbe.Json

/-! ## Sound trees -/

/-- A key that cannot be passed over cannot be read. -/
def Key.Sound (key : Key) : Prop := key.pass ≠ none → ∃ f, key.read = .error f

namespace Syntax

/-- What cannot be passed over cannot be read, and the fault inside which a list or an object stops
    is in one of its parts. -/
inductive Sound : Syntax → Prop
  | missing {start : Mark} {fault : Fault} : Sound (.missing start fault)
  | scalar {start stop : Mark} {read : Except Fault Scalar} {pass : Option Fault} :
      (pass ≠ none → ∃ f, read = .error f) → Sound (.scalar start read pass stop)
  | list {start : Mark} {items : List Syntax} {ending : Ending} :
      (∀ item ∈ items, Sound item) → (ending = .unreached → passItemsFault? items ≠ none) →
      Sound (.list start items ending)
  | object {start : Mark} {members : List (Key × Syntax)} {ending : Ending} :
      (∀ e ∈ members, e.1.Sound) → (∀ e ∈ members, Sound e.2) →
      (ending = .unreached → passMembersFault? members ≠ none) →
      Sound (.object start members ending)

/-- What the scan of a value gives where `n` characters are left: a sound tree, with a fault if the
    scan cannot go on, and fewer characters if it can. -/
structure Scanned (n : Nat) (r : Syntax × Rest) : Prop where
  sound : r.1.Sound
  stuck : r.2 = none → r.1.passFault? ≠ none
  shorter : ∀ rest m, r.2 = some (rest, m) → rest.length < n

/-- The same for the parts of a list or an object and how they end.  Each part is `sound`, and
    `fault?` finds the first fault among some of them. -/
structure ScannedParts {α : Type} (sound : α → Prop) (fault? : List α → Option Fault) (n : Nat)
    (r : List α × Ending × Rest) : Prop where
  sound : ∀ x ∈ r.1, sound x
  unreached : r.2.1 = .unreached → fault? r.1 ≠ none
  stuck : r.2.2 = none → (fault? r.1).or r.2.1.passFault? ≠ none
  shorter : ∀ rest m, r.2.2 = some (rest, m) → rest.length < n

/-- The same for the items of a list. -/
abbrev ScannedItems := ScannedParts Sound passItemsFault?

/-- The same for the members of an object. -/
abbrev ScannedMembers :=
  ScannedParts (fun e : Key × Syntax => e.1.Sound ∧ e.2.Sound) passMembersFault?

/-! ## Scalars and keys -/

section Leaves

variable {n fuel : Nat} {cs : List Char}

/-- Where no value starts nothing is scanned, and nothing was claimed of what follows. -/
theorem scanned_missing (start : Mark) (fault : Fault) :
    Scanned n (.missing start fault, none) :=
  ⟨.missing, by simp [passFault?], by simp⟩

/-- A scalar that is passed over, whether it can be read or not. -/
theorem scanned_passed {rest : List Char} (hrest : rest.length < n) (start stop stop' : Mark)
    (read : Except Fault Scalar) :
    Scanned n (.scalar start read none stop, some (rest, stop')) := by
  refine ⟨.scalar (by simp), by simp, fun rest' m h => ?_⟩
  cases h
  exact hrest

/-- A scalar that can neither be passed over nor read. -/
theorem scanned_stuck {read : Except Fault Scalar} (hread : ∃ f, read = .error f)
    (start stop : Mark) (f : Fault) : Scanned n (.scalar start read (some f) stop, none) :=
  ⟨.scalar fun _ => hread, by simp [passFault?], by simp⟩

/-- A word that stands for a value either is there as a whole or ends the scan with a fault. -/
theorem scanned_word (hn : cs.length < n) (start m : Mark) (value : Scalar)
    (expected : List Char) : Scanned n (word start value expected cs m) := by
  unfold word
  split
  · next rest stop hread =>
    have hlen := readWord_length hread
    exact scanned_passed (by omega) _ _ _ _
  · next f hread => exact scanned_stuck ⟨f, rfl⟩ _ _ _

/-- A text ends the scan at its closing quote or with a fault, and takes at least its opening
    quote. -/
theorem scanned_text (hfuel : cs.length ≤ fuel) (hn : cs.length < n) (start m : Mark) :
    Scanned n (textAt fuel start cs m) := by
  unfold textAt
  dsimp only
  split
  · next rest stop hpass =>
    have hlen := passText_length hpass
    exact scanned_passed (by omega) _ _ _ _
  · next f hpass => exact scanned_stuck (readText_error_of_passText hfuel hpass _) _ _ _

/-- A number takes at least one digit, and a fault in it ends the scan. -/
theorem scanned_number (hn : cs.length ≤ n) (m : Mark) : Scanned n (numberAt cs m) := by
  unfold numberAt
  split
  · next parts rest stop hat =>
    have hlen := NumberText.at?_length hat
    exact scanned_passed (by omega) _ _ _ _
  · next u hat => exact scanned_stuck ⟨_, rfl⟩ _ _ _

/-- A key that is read as a name was passed without a fault, so looking only for faults finds
    none in it either. -/
theorem keyAt_sound (hfuel : cs.length ≤ fuel) (m : Mark) : (keyAt fuel cs m).1.Sound := by
  unfold keyAt
  dsimp only
  split
  · next f hpass => exact fun _ => readText_error_of_passText hfuel hpass _
  · split
    · exact fun h => absurd rfl h
    · split <;> exact fun h => absurd rfl h

end Leaves

/-! ## Lists and objects -/

section Parts

variable {α : Type} {sound : α → Prop} {fault? : List α → Option Fault} {n n' : Nat} {xs : List α}

/-- Parts that are closed leave less text than there was; this is the measure on which the
    induction goes. -/
theorem ScannedParts.closed (hxs : ∀ x ∈ xs, sound x) {rest : List Char}
    (hrest : rest.length < n) (stop : Mark) :
    ScannedParts sound fault? n (xs, .closed stop, some (rest, stop)) := by
  refine ⟨hxs, by simp, by simp, fun rest' m h => ?_⟩
  cases h
  exact hrest

theorem ScannedParts.broken (hxs : ∀ x ∈ xs, sound x) (read pass : Fault) :
    ScannedParts sound fault? n (xs, .broken read pass, none) :=
  ⟨hxs, by simp, by simp [Ending.passFault?], by simp⟩

/-- A part inside which the scan stops is the last one. -/
theorem ScannedParts.unreached_last {x : α} (hx : sound x) (hfault : fault? [x] ≠ none) :
    ScannedParts sound fault? n ([x], .unreached, none) :=
  ⟨by simpa using hx, fun _ => hfault, by simpa [Ending.passFault?] using hfault, by simp⟩

/-- A part before others; it hides none of their faults.  This is the step of the inductions over
    the items of a list and over the members of an object. -/
theorem ScannedParts.cons {x : α} {r : List α × Ending × Rest} (hx : sound x)
    (h : ScannedParts sound fault? n r) (hn : n ≤ n')
    (hfault : fault? (x :: r.1) = none → fault? r.1 = none) :
    ScannedParts sound fault? n' (x :: r.1, r.2.1, r.2.2) where
  sound := List.forall_mem_cons.2 ⟨hx, h.sound⟩
  unreached hr hnone := h.unreached hr (hfault hnone)
  stuck hr hnone := by
    obtain ⟨hparts, hending⟩ := Option.or_eq_none_iff.1 hnone
    exact h.stuck hr (Option.or_eq_none_iff.2 ⟨hfault hparts, hending⟩)
  shorter rest m hr := Nat.lt_of_lt_of_le (h.shorter rest m hr) hn

/-- Items that were scanned make up a list that was scanned. -/
theorem ScannedParts.list {r : List Syntax × Ending × Rest} (h : ScannedItems n r) (hn : n ≤ n')
    (start : Mark) : Scanned n' (.list start r.1 r.2.1, r.2.2) where
  sound := .list h.sound h.unreached
  stuck := h.stuck
  shorter rest m hr := Nat.lt_of_lt_of_le (h.shorter rest m hr) hn

/-- Members that were scanned make up an object that was scanned, keys and values. -/
theorem ScannedParts.object {r : List (Key × Syntax) × Ending × Rest} (h : ScannedMembers n r)
    (hn : n ≤ n') (start : Mark) : Scanned n' (.object start r.1 r.2.1, r.2.2) where
  sound := .object (fun e he => (h.sound e he).1) (fun e he => (h.sound e he).2) h.unreached
  stuck := h.stuck
  shorter rest m hr := Nat.lt_of_lt_of_le (h.shorter rest m hr) hn

end Parts

-- Induction on the fuel.  A list takes a step for itself and one for each item, and every item takes
-- at least one character, so twice the characters that are left are enough.

mutual

/-- The scan of a value gives a sound tree and leaves no more text than there was.  The induction
    is on the fuel; twice the length of the text is enough, as a list takes one step for itself
    and one for its items. -/
theorem valueAt_sound : ∀ (fuel : Nat) (cs : List Char) (m : Mark), 2 * cs.length + 1 ≤ fuel →
    Scanned cs.length (valueAt fuel cs m)
  | 0, _, _, hfuel => absurd hfuel (Nat.not_succ_le_zero _)
  | fuel + 1, cs, m, hfuel => by
    have hspace := skipSpace_length cs m
    rw [valueAt]
    split
    · exact scanned_missing _ _
    next c rest m hskip =>
    rw [hskip, List.length_cons] at hspace
    split
    · exact scanned_word (by omega) _ _ _ _
    split
    · exact scanned_word (by omega) _ _ _ _
    split
    · exact scanned_word (by omega) _ _ _ _
    split
    · exact scanned_text (by omega) (by omega) _ _
    split
    · exact scanned_number (by simpa using hspace) _
    have hinner := skipSpace_length rest (m.past c)
    split
    · split
      · exact (ScannedParts.broken (by simp) _ _).list (Nat.le_refl _) _
      next d rest' m' hskip' =>
      rw [hskip', List.length_cons] at hinner
      split
      · exact (ScannedParts.closed (by simp) (by omega) _).list (Nat.le_refl _) _
      · have hitems := itemsAt_sound fuel (d :: rest') m' (by rw [List.length_cons]; omega)
        exact hitems.list (by rw [List.length_cons]; omega) _
    split
    · split
      · exact (ScannedParts.broken (by simp) _ _).object (Nat.le_refl _) _
      next d rest' m' hskip' =>
      rw [hskip', List.length_cons] at hinner
      split
      · exact (ScannedParts.closed (by simp) (by omega) _).object (Nat.le_refl _) _
      split
      · have hmembers := membersAt_sound fuel rest' (m'.past d) (by omega)
        exact hmembers.object (by omega) _
      · exact (ScannedParts.broken (by simp) _ _).object (Nat.le_refl _) _
    · exact scanned_missing _ _

/-- The scan of the items of a list gives sound trees, in the same induction.  Where the list is
    broken off there is no rest, so no later item was scanned. -/
theorem itemsAt_sound : ∀ (fuel : Nat) (cs : List Char) (m : Mark), 2 * cs.length + 2 ≤ fuel →
    ScannedItems cs.length (itemsAt fuel cs m)
  | 0, _, _, hfuel => absurd hfuel (Nat.not_succ_le_zero _)
  | fuel + 1, cs, m, hfuel => by
    have hitem := valueAt_sound fuel cs m (by omega)
    rw [itemsAt]
    split
    · next item hvalue =>
      rw [hvalue] at hitem
      exact .unreached_last hitem.sound (by simpa [passItemsFault?] using hitem.stuck rfl)
    next item rest m hvalue =>
    rw [hvalue] at hitem
    have hrest := hitem.shorter rest m rfl
    have hsound : ∀ s ∈ [item], s.Sound := by simpa using hitem.sound
    have hspace := skipSpace_length rest m
    split
    · exact .broken hsound _ _
    next c rest m hskip =>
    rw [hskip, List.length_cons] at hspace
    split
    · exact .closed hsound (by omega) _
    split
    · have hinner := skipSpace_length rest (m.past c)
      split
      · exact .broken hsound _ _
      · next rest m _ hskip =>
        rw [hskip] at hinner
        dsimp only at hinner
        have hitems := itemsAt_sound fuel rest m (by omega)
        exact hitems.cons hitem.sound (by omega) (by simp [passItemsFault?])
    · exact .broken hsound _ _

/-- The scan of the members of an object gives sound keys and trees, in the same induction.  A
    key and its colon take some text, so the value has fuel left. -/
theorem membersAt_sound : ∀ (fuel : Nat) (cs : List Char) (m : Mark), 2 * cs.length + 1 ≤ fuel →
    ScannedMembers cs.length (membersAt fuel cs m)
  | 0, _, _, hfuel => absurd hfuel (Nat.not_succ_le_zero _)
  | fuel + 1, cs, m, hfuel => by
    have hkey : (keyAt fuel cs m).1.Sound := keyAt_sound (by omega) m
    rw [membersAt]
    split
    · next key hat =>
      refine .unreached_last ⟨by rwa [hat] at hkey, .missing⟩ ?_
      simp [passMembersFault?, passFault?]
    next key rest m hat =>
    rw [hat] at hkey
    have hrest := keyAt_length hat
    have hvalue := valueAt_sound fuel rest m (by omega)
    split
    · next value hvalueAt =>
      rw [hvalueAt] at hvalue
      refine .unreached_last ⟨hkey, hvalue.sound⟩ fun hnone => ?_
      rw [passMembersFault?, Option.or_eq_none_iff, Option.or_eq_none_iff] at hnone
      exact hvalue.stuck rfl hnone.1.2
    next value rest m hvalueAt =>
    rw [hvalueAt] at hvalue
    have hrest' := hvalue.shorter rest m rfl
    have hsound : ∀ e ∈ [(key, value)], e.1.Sound ∧ e.2.Sound := by
      simpa using ⟨hkey, hvalue.sound⟩
    have hspace := skipSpace_length rest m
    split
    · exact .broken hsound _ _
    next c rest m hskip =>
    rw [hskip, List.length_cons] at hspace
    split
    · exact .closed hsound (by omega) _
    split
    · have hinner := skipSpace_length rest (m.past c)
      split
      · exact .broken hsound _ _
      next d rest m hskip =>
      rw [hskip, List.length_cons] at hinner
      split
      · have hmembers := membersAt_sound fuel rest (m.past d) (by omega)
        refine hmembers.cons ⟨hkey, hvalue.sound⟩ (by omega) ?_
        simp [passMembersFault?]
      · exact .broken hsound _ _
    · exact .broken hsound _ _

end

theorem scan_sound (text : String) : (scan text).1.Sound := by
  have hvalue := valueAt_sound (2 * text.toList.length + 2) text.toList Mark.start (by omega)
  unfold scan
  dsimp only
  split
  · next value hat =>
    rw [hat] at hvalue
    exact hvalue.sound
  · next value rest m hat =>
    rw [hat] at hvalue
    split <;> exact hvalue.sound

end Syntax

/-! ## Careful decoders -/

/-- Whatever the decoder accepts can be passed over. -/
def Careful {α : Type} (read : Syntax → Except Fault α) : Prop :=
  ∀ s x, s.Sound → read s = .ok x → s.passFault? = none

/-- A scalar that can be read has no fault for a reader that passes it by. -/
theorem Syntax.Sound.pass_eq_none {start stop : Mark} {x : Scalar} {pass : Option Fault}
    (h : Sound (.scalar start (.ok x) pass stop)) : pass = none := by
  cases h with
  | scalar hpass =>
    by_contra hne
    obtain ⟨f, hf⟩ := hpass hne
    cases hf

theorem Key.Sound.pass_eq_none {key : Key} (h : key.Sound) {name : String}
    (hread : key.read = .ok name) : key.pass = none := by
  by_contra hne
  obtain ⟨f, hf⟩ := h hne
  rw [hread] at hf
  cases hf

theorem map_eq_ok_iff {α β : Type} {r : Except Fault α} {f : α → β} {y : β} :
    r.map f = .ok y ↔ ∃ x, r = .ok x ∧ f x = y := by
  cases r <;> simp [Except.map]

section Shapes

variable {α : Type} {room : Nat} {read : Syntax → Except Fault α}

/-- A text that is read has no fault anywhere in it. -/
theorem careful_textValue : Careful textValue := by
  intro s x hs h
  unfold textValue at h
  split at h
  · exact hs.pass_eq_none
  · cases h

/-- An optional value is read with the same care as the value; null has no parts that could be at
    fault. -/
theorem careful_optional (hread : Careful read) : Careful (optional read) := by
  intro s x hs h
  unfold optional at h
  split at h
  · exact hs.pass_eq_none
  · obtain ⟨y, hy, -⟩ := map_eq_ok_iff.1 h
    exact hread s y hs hy

/-- Items that are all read with care have no fault among them.  The induction is on the items,
    in the order in which they were read. -/
theorem passItemsFault?_of_readEach (hread : Careful read) {items : List Syntax} {xs : List α}
    (hitems : ∀ s ∈ items, s.Sound) (h : readEach read items = .ok xs) :
    Syntax.passItemsFault? items = none := by
  induction items generalizing xs with
  | nil => rfl
  | cons s rest ih =>
    obtain ⟨hs, hrest⟩ := List.forall_mem_cons.1 hitems
    rw [readEach] at h
    split at h
    · cases h
    next x hx =>
    obtain ⟨ys, hys, -⟩ := map_eq_ok_iff.1 h
    rw [Syntax.passItemsFault?, hread s x hs hx, ih hrest hys]
    rfl

/-- A list is read with care if its items are.  Without room for the list nothing is read, so
    nothing needs to be known of the items then. -/
theorem careful_listOf (hread : 0 < room → Careful read) : Careful (listOf room read) := by
  intro s x hs h
  unfold listOf at h
  split at h
  · split at h
    · cases h
    next hroom =>
    split at h
    · cases h
    next start items ending _ xs hxs =>
    cases hs with
    | list hitems _ =>
    have hpass := passItemsFault?_of_readEach (hread (Nat.pos_of_ne_zero hroom)) hitems hxs
    cases ending with
    | broken read pass => cases h
    | closed stop => simp [Syntax.passFault?, hpass, Ending.passFault?]
    | unreached => simp [Syntax.passFault?, hpass, Ending.passFault?]
  · cases h

/-- A field is set with the care with which its value is read. -/
theorem careful_field {β : Type} (hread : Careful read) (name : String) (required : Bool)
    (set : α → β → β) (r : β) : Careful fun s => (field name required read set).put s r := by
  intro s r' hs h
  obtain ⟨x, hx, -⟩ := map_eq_ok_iff.1 h
  exact hread s x hs hx

end Shapes

/-! ## Records -/

section Records

variable {α : Type} {fields : List (RecordField α)}

/-- Members that are put into a record can be passed over, the unknown ones among them as well. -/
theorem passMembersFault?_of_putMembers (hput : ∀ f ∈ fields, ∀ r, Careful fun s => f.put s r)
    {members : List (Key × Syntax)} {seen seen' : List String} {r r' : α}
    (hkeys : ∀ e ∈ members, e.1.Sound) (hvalues : ∀ e ∈ members, e.2.Sound)
    (h : putMembers fields seen r members = .ok (seen', r')) :
    Syntax.passMembersFault? members = none := by
  induction members generalizing seen r with
  | nil => rfl
  | cons e rest ih =>
    obtain ⟨key, value⟩ := e
    obtain ⟨hkey, hkeys⟩ := List.forall_mem_cons.1 hkeys
    obtain ⟨hvalue, hvalues⟩ := List.forall_mem_cons.1 hvalues
    rw [putMembers] at h
    split at h
    · cases h
    next name hname =>
    have hpass : key.pass = none := hkey.pass_eq_none hname
    split at h
    -- no field has the name, so the value is passed over
    · split at h
      · cases h
      next hnone =>
      obtain ⟨hcolon, hfault⟩ := Option.or_eq_none_iff.1 hnone
      simp [Syntax.passMembersFault?, hpass, hcolon, hfault, ih hkeys hvalues h]
    next field hfind =>
    split at h
    · cases h
    split at h
    · cases h
    next hcolon =>
    split at h
    · cases h
    next r₁ hr₁ =>
    have hfault := hput field (List.mem_of_find?_eq_some hfind) r value r₁ hvalue hr₁
    simp [Syntax.passMembersFault?, hpass, hcolon, hfault, ih hkeys hvalues h]

/-- Nothing stands after the last field of a record that is written as a list, not even a fault:
    the list is closed there. -/
theorem surplusFault?_eq_none {items : List Syntax} {ending : Ending}
    (h : surplusFault? items ending = none) : items = [] ∧ ending.passFault? = none := by
  unfold surplusFault? at h
  split at h
  · cases h
  · cases h
  · next hbroken =>
    refine ⟨rfl, ?_⟩
    cases ending with
    | broken read pass => exact absurd rfl (hbroken read pass)
    | closed => rfl
    | unreached => rfl
  · cases h

/-- Items that are put into a record, and their end, can be passed over. -/
theorem passFault?_of_putItems {wrongLength : Nat → Cause} {count : Nat} {r r' : α}
    {items : List Syntax} {ending : Ending} (hput : ∀ f ∈ fields, ∀ r, Careful fun s => f.put s r)
    (hitems : ∀ s ∈ items, s.Sound)
    (h : putItems wrongLength fields count r items ending = .ok r') :
    (Syntax.passItemsFault? items).or ending.passFault? = none := by
  induction fields generalizing count r items with
  | nil =>
    rw [putItems] at h
    split at h
    · cases h
    next hsurplus =>
    obtain ⟨rfl, hending⟩ := surplusFault?_eq_none hsurplus
    exact hending
  | cons f fields ih =>
    obtain ⟨hf, hput⟩ := List.forall_mem_cons.1 hput
    cases items with
    | nil =>
      cases ending with
      | broken read pass => cases h
      | closed => rfl
      | unreached => rfl
    | cons s items =>
      obtain ⟨hs, hitems⟩ := List.forall_mem_cons.1 hitems
      rw [putItems] at h
      split at h
      · cases h
      next r₁ hr₁ =>
      have hrest := ih hput hitems h
      rw [Syntax.passItemsFault?, hf r s r₁ hs hr₁]
      exact hrest

/-- A record is read with care if its fields are, and this covers the members that have no field:
    they are passed and a fault in them is reported. -/
theorem careful_record {room : Nat} {name : String} {blank : α}
    (hput : 0 < room → ∀ f ∈ fields, ∀ r, Careful fun s => f.put s r) :
    Careful (record room name blank fields) := by
  intro s r hs h
  unfold record at h
  split at h
  · next start members ending =>
    split at h
    · cases h
    next hroom =>
    split at h
    · cases h
    next seen r₁ hmembers =>
    cases hs with
    | object hkeys hvalues _ =>
    have hfault := passMembersFault?_of_putMembers (hput (Nat.pos_of_ne_zero hroom)) hkeys hvalues
      hmembers
    cases ending with
    | broken read pass => cases h
    | closed stop => simp [Syntax.passFault?, hfault, Ending.passFault?]
    | unreached => simp [Syntax.passFault?, hfault, Ending.passFault?]
  · next start items ending =>
    split at h
    · cases h
    next hroom =>
    cases hs with
    | list hitems _ => exact passFault?_of_putItems (hput (Nat.pos_of_ne_zero hroom)) hitems h
  · cases h

end Records

/-! ## Documents -/

/-- The tree is sound, and the value can be passed over. -/
structure Syntax.Faultless (s : Syntax) : Prop where
  sound : s.Sound
  pass : s.passFault? = none

/-- A document that is accepted by a careful decoder was scanned to its end, into a tree without
    fault. -/
theorem exists_scan_of_decode {α : Type} {read : (room : Nat) → Syntax → Except Fault α}
    (hread : Careful (read depthLimit)) {text : String} {x : α} (h : decode read text = .ok x) :
    ∃ s, Syntax.scan text = (s, none) ∧ s.Faultless ∧ read depthLimit s = .ok x := by
  have hsound := Syntax.scan_sound text
  unfold decode at h
  dsimp only at h
  split at h
  · cases h
  next y hy =>
  split at h
  · cases h
  next hsurplus =>
  obtain rfl := Except.ok.inj h
  exact ⟨_, Prod.ext rfl hsurplus, ⟨hsound, hread _ _ hsound hy⟩, hy⟩

end BranchProbe.Json
