/-
  Settings are decided field by field.

  1. `Settings.Field` is one setting: what a layer says about it, where a choice has it, and how it is
     expanded.  That an overlay and an expansion act on the field alone is part of the type.
  2. `get_overlay` is the step, one layer; `Field.get_foldl` is the run over any number of layers: the
     highest layer that says something about the field decides it, and else the built-in choice.
  3. `Layered` says which layers the files of a store and the environment specify, without the order
     in which they are loaded or the point at which loading stops.
  4. `load_decides_fields`: loading succeeds just if there are such layers and the depth limit that
     results is not zero, and then each field is the one decided.
-/
import BranchProbe.Files.MemoryStore
import BranchProbe.Proofs.Numeral.Read
import BranchProbe.Settings.Load

namespace BranchProbe

namespace Settings

/-! ## Fields -/

/-- One of the settings. -/
structure Field (α : Type) where
  /-- what a layer specifies -/
  said : PartialSettings → Option α
  get : Settings → α
  /-- the value with its references expanded -/
  expand : Environment → α → α
  get_overlay (s : Settings) (layer : PartialSettings) :
    get (s.overlay layer) = (said layer).getD (get s)
  get_expand (env : Environment) (s : Settings) : get (s.expand env) = expand env (get s)

namespace Field

/-- The directory of more trees, which may be absent from a choice. -/
def examplesDir : Field (Option String) where
  said layer := layer.examplesDir.map some
  get := Settings.examplesDir
  expand env := Option.map (expandPath env)
  get_overlay s layer := by cases h : layer.examplesDir <;> simp [overlay, h]
  get_expand _ _ := rfl

def maxDepth : Field Nat where
  said := PartialSettings.maxDepth
  get := Settings.maxDepth
  expand _ n := n
  get_overlay _ _ := rfl
  get_expand _ _ := rfl

def exportFile : Field String where
  said := PartialSettings.exportFile
  get := Settings.exportFile
  expand := expandPath
  get_overlay _ _ := rfl
  get_expand _ _ := rfl

def color : Field Bool where
  said := PartialSettings.color
  get := Settings.color
  expand _ b := b
  get_overlay _ _ := rfl
  get_expand _ _ := rfl

def showLayout : Field Bool where
  said := PartialSettings.showLayout
  get := Settings.showLayout
  expand _ b := b
  get_overlay _ _ := rfl
  get_expand _ _ := rfl

variable {α : Type}

/-- The value of a field that layers decide, from the lowest to the highest. -/
def decided (f : Field α) (layers : List PartialSettings) : α :=
  (layers.reverse.findSome? f.said).getD (f.get default)

/-- One layer after the other: the highest that says something about the field decides it. -/
theorem get_foldl (f : Field α) (layers : List PartialSettings) (s : Settings) :
    f.get (layers.foldl overlay s) = (layers.reverse.findSome? f.said).getD (f.get s) := by
  induction layers generalizing s with
  | nil => rfl
  | cons layer rest ih =>
    rw [List.foldl_cons, ih, f.get_overlay, List.reverse_cons, List.findSome?_append]
    cases rest.reverse.findSome? f.said with
    | some x => rfl
    | none => cases hsaid : f.said layer <;> simp [hsaid]

/-- Nothing but what the layers say about the field itself counts, so the fields of the settings
    are decided independently of each other. -/
theorem decided_congr (f : Field α) {layers layers' : List PartialSettings}
    (h : layers.map f.said = layers'.map f.said) : f.decided layers = f.decided layers' := by
  have hfound : ∀ l : List PartialSettings,
      l.reverse.findSome? f.said = (l.map f.said).reverse.findSome? id := by
    intro l
    rw [← List.map_reverse, List.findSome?_map]
    rfl
  rw [decided, decided, hfound, hfound, h]

end Field

/-- Layers make a choice if the depth limit that they decide is not zero.  Its fields are decided
    first, and then the two paths are expanded. -/
theorem choose_ok_iff {env : Environment} {layers : List PartialSettings} {x : Settings} :
    choose env layers = .ok x ↔ 1 ≤ Field.maxDepth.decided layers
      ∧ x = { examplesDir := (Field.examplesDir.decided layers).map (expandPath env)
              maxDepth := Field.maxDepth.decided layers
              exportFile := expandPath env (Field.exportFile.decided layers)
              color := Field.color.decided layers
              showLayout := Field.showLayout.decided layers } := by
  have hdir : (layers.foldl overlay default).examplesDir = Field.examplesDir.decided layers :=
    Field.examplesDir.get_foldl layers default
  have hdepth : (layers.foldl overlay default).maxDepth = Field.maxDepth.decided layers :=
    Field.maxDepth.get_foldl layers default
  have hfile : (layers.foldl overlay default).exportFile = Field.exportFile.decided layers :=
    Field.exportFile.get_foldl layers default
  have hcolor : (layers.foldl overlay default).color = Field.color.decided layers :=
    Field.color.get_foldl layers default
  have hlayout : (layers.foldl overlay default).showLayout = Field.showLayout.decided layers :=
    Field.showLayout.get_foldl layers default
  rw [choose, expand, hdir, hdepth, hfile, hcolor, hlayout]
  split
  · next hzero => simp [hzero]
  · next hpos =>
    have hle : 1 ≤ Field.maxDepth.decided layers := Nat.pos_of_ne_zero hpos
    rw [Except.ok.injEq, eq_comm, and_iff_right hle]

/-- Choices from layers that say the same about a field agree on it, provided both are made: a
    choice fails as a whole if one of its fields cannot be expanded. -/
theorem Field.get_congr {α : Type} (f : Field α) {env : Environment}
    {layers layers' : List PartialSettings} {x x' : Settings} (hx : choose env layers = .ok x)
    (hx' : choose env layers' = .ok x') (h : layers.map f.said = layers'.map f.said) :
    f.get x = f.get x' := by
  have hget : ∀ {layers x}, choose env layers = .ok x → f.get x = f.expand env (f.decided layers) := by
    intro layers x hx
    rw [choose] at hx
    split at hx
    · cases hx
    · rw [← Except.ok.inj hx, f.get_expand, f.get_foldl]
      rfl
  rw [hget hx, hget hx', f.decided_congr h]

/-- A choice fails with a message about the configuration and in no other way. -/
theorem choose_error {env : Environment} {layers : List PartialSettings} {f : Failure}
    (h : choose env layers = .error f) : ∃ message, f = .config message := by
  rw [choose] at h
  split at h
  · cases h
    exact ⟨_, rfl⟩
  · cases h

end Settings

/-! ## Loading tasks -/

section Tasks

variable {σ α β : Type} [FileStore σ] {store : σ}

/-- The task leaves the store alone.  It ends well just with what fulfils `P`, and else with a failure
    of the configuration. -/
def Gives (store : σ) (t : FileTask (Except Failure α)) (P : α → Prop) : Prop :=
  ∃ r, t.run store = (r, store) ∧ (∀ x, r = .ok x ↔ P x)
    ∧ ∀ f, r = .error f → ∃ message, f = .config message

/-- A task that is done gives what it has come to. -/
theorem gives_done {r : Except Failure α} (h : ∀ f, r = .error f → ∃ message, f = .config message) :
    Gives store (.done r) fun x => r = .ok x := ⟨r, rfl, fun _ => Iff.rfl, h⟩

/-- A task that is done with a value gives just this value. -/
theorem gives_ok (x : α) : Gives store (.done (.ok x)) fun y => y = x :=
  ⟨.ok x, rfl, fun y => by rw [Except.ok.injEq, eq_comm], fun f hf => by cases hf⟩

theorem Gives.congr {t : FileTask (Except Failure α)} {P Q : α → Prop} (h : Gives store t P)
    (hPQ : ∀ x, P x ↔ Q x) : Gives store t Q := by
  obtain ⟨r, hrun, hok, herror⟩ := h
  exact ⟨r, hrun, fun x => (hok x).trans (hPQ x), herror⟩

/-- One task after another, if the first one succeeds. -/
def andThen (t : FileTask (Except Failure α)) (next : α → FileTask (Except Failure β)) :
    FileTask (Except Failure β) :=
  t.bind fun
    | .error f => .done (.error f)
    | .ok x => next x

/-- Whatever goes on with a result in its own way, but gives a failure back as it is. -/
theorem bind_eq_andThen {t : FileTask (Except Failure α)}
    {next : Except Failure α → FileTask (Except Failure β)} {next' : α → FileTask (Except Failure β)}
    (herror : ∀ f, next (.error f) = .done (.error f)) (hok : ∀ x, next (.ok x) = next' x) :
    t.bind next = andThen t next' := by
  refine congrArg t.bind (funext fun r => ?_)
  cases r with
  | error f => exact herror f
  | ok x => exact hok x

/-- One task after the other: what the second fulfils is known of what the first has given. -/
theorem Gives.andThen {t : FileTask (Except Failure α)} {P : α → Prop} (h : Gives store t P)
    {next : α → FileTask (Except Failure β)} {Q : α → β → Prop}
    (hnext : ∀ x, Gives store (next x) (Q x)) :
    Gives store (andThen t next) fun y => ∃ x, P x ∧ Q x y := by
  obtain ⟨r, hrun, hr, herror⟩ := h
  rw [Gives, BranchProbe.andThen, FileTask.run_bind, hrun]
  cases r with
  | error f =>
    refine ⟨.error f, rfl, fun y => ⟨fun h => (by cases h), ?_⟩, fun f' hf' => ?_⟩
    · rintro ⟨x, hx, -⟩
      cases (hr x).2 hx
    · exact herror f' (by rw [Except.error.inj hf'])
  | ok x =>
    have hx : P x := (hr x).1 rfl
    refine (hnext x).congr fun y => ⟨fun hy => ⟨x, hx, hy⟩, ?_⟩
    rintro ⟨x', hx', hy⟩
    obtain rfl := Except.ok.inj ((hr x').2 hx')
    exact hy

end Tasks

/-! ## The layers of a store and an environment -/

namespace PartialSettings

section Files

variable {σ : Type} [FileStore σ]

/-- The file at a path can be read and specifies this layer. -/
def IsIn (store : σ) (path : Path) (layer : PartialSettings) : Prop :=
  ∃ text, FileStore.read store path = .ok text ∧ ofToml? text = some layer

/-- The file at a path specifies this layer; if it is not there, that is nothing. -/
def IsInIfThere (store : σ) (path : Path) (layer : PartialSettings) : Prop :=
  if FileStore.fileExists store path then IsIn store path layer else layer = .nothing

/-- The variables specify this layer.  A depth limit must be a number below `2 ^ 64` in decimal digits,
    with or without a plus sign, and a word that means no flag counts as not given. -/
structure IsOf (env : Environment) (layer : PartialSettings) : Prop where
  examplesDir : layer.examplesDir = env.setting? "examples_dir"
  maxDepth : match env.setting? "max_depth" with
    | none => layer.maxDepth = none
    | some value => ∃ n, Numeral.IsSize value n ∧ layer.maxDepth = some n
  exportFile : layer.exportFile = env.setting? "export_file"
  color : layer.color = (env.setting? "render.color").bind Environment.flagOf?
  showLayout : layer.showLayout = (env.setting? "render.show_layout").bind Environment.flagOf?

/-- A settings file that must be there gives its layer, and an error about the configuration if
    it cannot be read or has another form. -/
theorem gives_loadNamed (store : σ) (path : Path) :
    Gives store (loadNamed path) (IsIn store path) := by
  refine ⟨ofFile path (FileStore.read store path), rfl, fun layer => ?_, fun f hf => ?_⟩
  · rw [IsIn]
    cases FileStore.read store path with
    | error f => simp [ofFile]
    | ok text => cases hread : ofToml? text <;> simp [ofFile, hread]
  · cases hread : FileStore.read store path with
    | error fault =>
      rw [hread] at hf
      cases hf
      exact ⟨_, rfl⟩
    | ok text =>
      rw [hread, ofFile] at hf
      split at hf
      · cases hf
        exact ⟨_, rfl⟩
      · cases hf

/-- A settings file that may be missing gives nothing where it is missing. -/
theorem gives_loadOptional (store : σ) (path : Path) :
    Gives store (loadOptional path) (IsInIfThere store path) := by
  rw [loadOptional, Gives, FileTask.run]
  unfold IsInIfThere
  split
  · exact gives_loadNamed store path
  · exact gives_ok PartialSettings.nothing

end Files

/-- The environment specifies a layer just if its depth limit can be read.  All other variables
    are taken as they are, or count as not given, so nothing else can fail. -/
theorem ofEnvironment_ok_iff {env : Environment} {layer : PartialSettings} :
    ofEnvironment env = .ok layer ↔ IsOf env layer := by
  obtain ⟨dir, depth, file, color, showLayout⟩ := layer
  unfold ofEnvironment
  -- the depth limit is the one entry that can fail, so both directions split on it
  constructor
  · intro h
    cases hdepth : env.setting? "max_depth" with
    | none =>
      rw [hdepth] at h
      cases h
      exact ⟨rfl, by rw [hdepth], rfl, rfl, rfl⟩
    | some value =>
      rw [hdepth] at h
      cases hsize : Numeral.size? value with
      | error f => simp [hsize, bind, Except.bind] at h
      | ok n =>
        simp only [hsize] at h
        cases h
        exact ⟨rfl, by rw [hdepth]; exact ⟨n, Numeral.size?_eq_ok_iff.1 hsize, rfl⟩, rfl, rfl, rfl⟩
  · rintro ⟨hdir, hmax, hfile, hcolor, hlayout⟩
    dsimp only at hdir hfile hcolor hlayout
    subst hdir hfile hcolor hlayout
    cases hdepth : env.setting? "max_depth" with
    | none =>
      rw [hdepth] at hmax
      dsimp only at hmax
      subst hmax
      rfl
    | some value =>
      rw [hdepth] at hmax
      obtain ⟨n, hsize, hmax⟩ := hmax
      dsimp only at hmax
      subst hmax
      simp only [Numeral.size?_eq_ok_iff.2 hsize]
      rfl

/-- The environment can fail only with a message about the configuration, that of the depth
    limit. -/
theorem ofEnvironment_error {env : Environment} {f : Failure} (h : ofEnvironment env = .error f) :
    ∃ message, f = .config message := by
  unfold ofEnvironment at h
  cases hdepth : env.setting? "max_depth" with
  | none =>
    rw [hdepth] at h
    cases h
  | some value =>
    rw [hdepth] at h
    cases hsize : Numeral.size? value with
    | error f =>
      simp only [hsize] at h
      cases h
      exact ⟨_, rfl⟩
    | ok n =>
      simp only [hsize] at h
      cases h

end PartialSettings

/-! ## Loading -/

namespace Settings

open PartialSettings (IsIn IsInIfThere IsOf)

variable {σ : Type} [FileStore σ]

/-- The settings file for all working directories, if there is a place for it. -/
def IsLowest (store : σ) : Option Path → PartialSettings → Prop
  | none, layer => layer = .nothing
  | some path, layer => IsInIfThere store path layer

/-- The settings file that is named, or else that of the working directory. -/
def IsMiddle (store : σ) : Option Path → PartialSettings → Prop
  | none, layer => IsInIfThere store localSettingsFile layer
  | some path, layer => IsIn store path layer

/-- The layers that count: two files and the environment. -/
structure Layered (store : σ) (env : Environment) (global named : Option Path)
    (lowest middle highest : PartialSettings) : Prop where
  lowest : IsLowest store global lowest
  middle : IsMiddle store named middle
  highest : IsOf env highest

def loadLowest : Option Path → FileTask (Except Failure PartialSettings)
  | none => .done (.ok .nothing)
  | some path => PartialSettings.loadOptional path

def loadMiddle : Option Path → FileTask (Except Failure PartialSettings)
  | none => PartialSettings.loadOptional localSettingsFile
  | some path => PartialSettings.loadNamed path

/-- The layers of the files completed by the environment. -/
def complete (env : Environment) (lowest middle : PartialSettings) : Except Failure Settings :=
  (PartialSettings.ofEnvironment env).bind fun highest => choose env [lowest, middle, highest]

theorem load_eq (env : Environment) (global named : Option Path) :
    load env global named = andThen (loadLowest global) fun lowest =>
      andThen (loadMiddle named) fun middle => .done (complete env lowest middle) := by
  cases global <;> refine bind_eq_andThen (fun _ => rfl) fun lowest => ?_
  all_goals cases named <;> refine bind_eq_andThen (fun _ => rfl) fun middle => ?_
  -- wherever the files are, the environment comes last
  all_goals
    rw [complete]
    cases PartialSettings.ofEnvironment env <;> rfl

/-- The lowest layer is the settings file for all working directories, if there is a place for
    one. -/
theorem gives_loadLowest (store : σ) (global : Option Path) :
    Gives store (loadLowest global) (IsLowest store global) := by
  cases global with
  | none => exact gives_ok PartialSettings.nothing
  | some path => exact PartialSettings.gives_loadOptional store path

/-- The middle layer is the named file, which must be there, or else that of the working
    directory. -/
theorem gives_loadMiddle (store : σ) (named : Option Path) :
    Gives store (loadMiddle named) (IsMiddle store named) := by
  cases named with
  | none => exact PartialSettings.gives_loadOptional store localSettingsFile
  | some path => exact PartialSettings.gives_loadNamed store path

/-- With both files read, the environment decides whether there is a choice and what it is. -/
theorem gives_complete (store : σ) (env : Environment) (lowest middle : PartialSettings) :
    Gives store (.done (complete env lowest middle)) fun x => ∃ highest, IsOf env highest
      ∧ choose env [lowest, middle, highest] = .ok x := by
  rw [complete]
  cases hlayer : PartialSettings.ofEnvironment env with
  | error f =>
    refine (gives_done fun f' hf' => ?_).congr fun x => ⟨fun h => (by cases h), ?_⟩
    · obtain rfl := Except.error.inj hf'
      exact PartialSettings.ofEnvironment_error hlayer
    · rintro ⟨highest, hhighest, -⟩
      rw [PartialSettings.ofEnvironment_ok_iff.2 hhighest] at hlayer
      cases hlayer
  | ok layer =>
    refine (gives_done fun _ => choose_error).congr fun x => ⟨fun h =>
      ⟨layer, PartialSettings.ofEnvironment_ok_iff.1 hlayer, h⟩, ?_⟩
    rintro ⟨highest, hhighest, h⟩
    rw [PartialSettings.ofEnvironment_ok_iff.2 hhighest] at hlayer
    obtain rfl := Except.ok.inj hlayer
    exact h

/-- Loading gives the choice of three layers.  The files are read one after the other, but which
    one fails first does not matter for what a success is. -/
theorem gives_load (store : σ) (env : Environment) (global named : Option Path) :
    Gives store (load env global named) fun x => ∃ lowest middle highest,
      Layered store env global named lowest middle highest
      ∧ choose env [lowest, middle, highest] = .ok x := by
  rw [load_eq]
  refine ((gives_loadLowest store global).andThen fun lowest =>
    (gives_loadMiddle store named).andThen fun middle =>
      gives_complete store env lowest middle).congr fun x => ⟨?_, ?_⟩
  · rintro ⟨lowest, hlowest, middle, hmiddle, highest, hhighest, hx⟩
    exact ⟨lowest, middle, highest, ⟨hlowest, hmiddle, hhighest⟩, hx⟩
  · rintro ⟨lowest, middle, highest, ⟨hlowest, hmiddle, hhighest⟩, hx⟩
    exact ⟨lowest, hlowest, middle, hmiddle, highest, hhighest, hx⟩

/-- Loading settings succeeds just if there is a layer everywhere and the depth limit that they decide
    is not zero.  There is a layer everywhere if the files that are there, and the one that is named,
    can be read and parsed, and the depth limit of the environment is a number.  Each field is
    decided by the highest layer that says something about it, and then the two paths are
    expanded.  What the layers say about other fields does not matter. -/
theorem load_decides_fields (store : σ) (env : Environment) (global named : Option Path) :
    (∃ r, (load env global named).run store = (r, store)
      ∧ (∀ x, r = .ok x ↔ ∃ lowest middle highest,
          Layered store env global named lowest middle highest
          ∧ 1 ≤ Field.maxDepth.decided [lowest, middle, highest]
          ∧ x = {
              examplesDir :=
                (Field.examplesDir.decided [lowest, middle, highest]).map (expandPath env)
              maxDepth := Field.maxDepth.decided [lowest, middle, highest]
              exportFile := expandPath env (Field.exportFile.decided [lowest, middle, highest])
              color := Field.color.decided [lowest, middle, highest]
              showLayout := Field.showLayout.decided [lowest, middle, highest] })
      ∧ ∀ f, r = .error f → ∃ message, f = .config message)
    ∧ ∀ layers layers' x x', choose env layers = .ok x → choose env layers' = .ok x' →
      ∀ (α : Type) (f : Field α), layers.map f.said = layers'.map f.said → f.get x = f.get x' := by
  obtain ⟨r, hrun, hok, herror⟩ := gives_load store env global named
  refine ⟨⟨r, hrun, fun x => (hok x).trans ?_, herror⟩,
    fun layers layers' x x' hx hx' α f h => f.get_congr hx hx' h⟩
  simp only [choose_ok_iff]

/-- The zero and the path without a value below, and the word that means no flag, do no harm. -/
theorem replaced_values_do_no_harm :
    let below := "max_depth = 0\nexport_file = \"$NOWHERE/a.json\"\n"
    let above := "max_depth = 7\nexport_file = \"b.json\"\n"
    let store : MemoryStore := ⟨.ofList [(⟨"/all.toml"⟩, below), (localSettingsFile, above)]⟩
    let env : Environment := .ofList
      [("TREEJACK_RENDER__COLOR", "maybe"), ("treejack_render__show_layout", "off")]
    (load env (some ⟨"/all.toml"⟩) none).run store
        = (.ok ⟨none, 7, "b.json", true, false⟩, store)
      ∧ Field.color.get ⟨none, 7, "b.json", true, false⟩
        = Field.color.get ⟨some "dir", 1, "c.json", true, true⟩ := by
  intro below above store env
  have hlowest : IsLowest store (some ⟨"/all.toml"⟩)
      ⟨none, some 0, some "$NOWHERE/a.json", none, none⟩ := by
    have hthere : FileStore.fileExists store (⟨"/all.toml"⟩ : Path) = true := by decide +kernel
    have hcontent : store.content? ⟨"/all.toml"⟩ = some below := by decide +kernel
    rw [IsLowest, IsInIfThere, if_pos hthere]
    exact ⟨below, by simp only [FileStore.read, hcontent], by decide +kernel⟩
  have hmiddle : IsMiddle store none ⟨none, some 7, some "b.json", none, none⟩ := by
    have hthere : FileStore.fileExists store localSettingsFile = true := by decide +kernel
    have hcontent : store.content? localSettingsFile = some above := by decide +kernel
    rw [IsMiddle, IsInIfThere, if_pos hthere]
    exact ⟨above, by simp only [FileStore.read, hcontent], by decide +kernel⟩
  have hhighest : IsOf env ⟨none, none, none, none, some false⟩ := by
    have hdepth : env.setting? "max_depth" = none := by decide +kernel
    exact ⟨by decide +kernel, by rw [hdepth], by decide +kernel, by decide +kernel,
      by decide +kernel⟩
  obtain ⟨⟨r, hrun, hok, -⟩, hfield⟩ :=
    load_decides_fields store env (some ⟨"/all.toml"⟩) none
  have hr : r = .ok ⟨none, 7, "b.json", true, false⟩ :=
    (hok _).2 ⟨_, _, _, ⟨hlowest, hmiddle, hhighest⟩, by decide +kernel, by decide +kernel⟩
  refine ⟨by rw [hrun, hr], ?_⟩
  exact hfield [⟨none, some 7, some "b.json", none, some false⟩]
    [⟨some "dir", some 1, some "c.json", none, none⟩] _ _
    (choose_ok_iff.2 (by decide +kernel)) (choose_ok_iff.2 (by decide +kernel)) Bool Field.color rfl

end Settings

end BranchProbe
