/-
  A path is expanded whole or not at all.

  1. A path whose division has a name that is not set stays as it is, and any other is the values of
     its stretches (`expandPath_of_unset`, `expandPath_of_set`).
  2. A leading tilde is a stretch of its own, so it is still there when the values are written, and
     what follows it then decides about the home directory.
  3. Loaded settings hold the two paths that their layers decide, expanded once.
-/
import BranchProbe.Proofs.Settings.Layers
import BranchProbe.Proofs.Settings.Stretches

namespace BranchProbe

/-! ## The home directory -/

/-- The test for the home directory looks at the first character alone. -/
theorem startsAtHome_iff {cs : List Char} : startsAtHome cs = true ↔ cs.head? = some '~' := by
  cases cs with
  | nil => simp [startsAtHome]
  | cons c cs =>
    by_cases hc : c = '~' <;> simp [startsAtHome, hc]

/-- A tilde that stands alone or before a slash is the home directory. -/
theorem expandHome_of_slash {env : Environment} {home : String} (hhome : env.home? = some home)
    {after : List Char} (h : after = [] ∨ after.head? = some '/') :
    expandHome env ('~' :: after) = home.toList ++ after := by
  rcases h with rfl | h
  · simp [expandHome, hhome]
  · obtain ⟨rest, rfl⟩ := List.head?_eq_some_iff.1 h
    simp [expandHome, hhome]

/-- A tilde before a name, or without a known home directory, stays as it is. -/
theorem expandHome_of_name {env : Environment} {after : List Char}
    (h : env.home? = none ∨ ∃ c ∈ after.head?, c ≠ '/') :
    expandHome env ('~' :: after) = '~' :: after := by
  cases after with
  | nil =>
    have hhome : env.home? = none := h.resolve_right (by simp)
    simp [expandHome, hhome]
  | cons c rest =>
    by_cases hc : c = '/'
    · have hhome : env.home? = none := h.resolve_right (by simp [hc])
      simp [expandHome, hhome]
    · simp [expandHome, hc]

/-! ## Paths -/

section Paths

variable {env : Environment} {path : String} {ss : List Stretch}

/-- One reference without a value leaves the whole path as it was written. -/
theorem expandPath_of_unset (h : Division path.toList ss) (hunset : ∃ s ∈ ss, s.Unset env) :
    expandPath env path = path := by
  rw [expandPath, h.join?_of_unset (Nat.le_refl _) hunset]

/-- If all references have values, each stretch is replaced by its value once, and nothing that
    was put in is looked at again.  A tilde counts only if the path was written with it. -/
theorem expandPath_of_set (h : Division path.toList ss) (hset : ∀ s ∈ ss, ¬ s.Unset env) :
    expandPath env path = String.ofList (if path.toList.head? = some '~'
      then expandHome env (ss.flatMap (Stretch.value env))
      else ss.flatMap (Stretch.value env)) := by
  rw [expandPath, h.join?_of_set (Nat.le_refl _) hset]
  simp only [startsAtHome_iff]
  split <;> rfl

theorem expandPath_of_plain (hdollar : '$' ∉ path.toList) (htilde : path.toList.head? ≠ some '~') :
    expandPath env path = path := by
  have hset : ∀ s ∈ path.toList.map (fun c => Stretch.plain [c]), ¬ s.Unset env := by
    intro s hs
    obtain ⟨c, -, rfl⟩ := List.mem_map.1 hs
    exact id
  rw [expandPath_of_set (division_of_no_dollar hdollar) hset, if_neg htilde]
  simp [List.flatMap_map, Stretch.value]

end Paths

/-- Expanding a path in an environment.  The path is made up of stretches, in one way.  If one of
    them is a reference without a default whose name is not set, the path stays as it is.  Else each
    stretch is replaced by its value, the values in order and not looked at again, and if the path
    itself starts with a tilde, this is replaced by the home directory before a slash or the end.  A
    path without dollars and leading tilde stays as it is.  The two paths of loaded settings are
    those that their layers decide, each so expanded. -/
theorem Settings.paths_expanded_whole (env : Environment) :
    (∀ path : String, (∃! ss, Division path.toList ss)
      ∧ ∀ ss, Division path.toList ss →
        ss.flatMap Stretch.written = path.toList
        ∧ ((∃ s ∈ ss, s.Unset env) → expandPath env path = path)
        ∧ ((∀ s ∈ ss, ¬ s.Unset env) →
          (path.toList.head? ≠ some '~' →
            expandPath env path = String.ofList (ss.flatMap (Stretch.value env)))
          ∧ (path.toList.head? = some '~' → ∃ after,
            ss.flatMap (Stretch.value env) = '~' :: after
            ∧ (∀ home, env.home? = some home → after = [] ∨ after.head? = some '/' →
              expandPath env path = home ++ String.ofList after)
            ∧ (env.home? = none ∨ (∃ c ∈ after.head?, c ≠ '/') →
              expandPath env path = String.ofList ('~' :: after)))))
    ∧ (∀ path : String, '$' ∉ path.toList → path.toList.head? ≠ some '~' →
        expandPath env path = path)
    ∧ ∀ (σ : Type) [FileStore σ] (store : σ) (global named : Option Path) (x : Settings),
      ((load env global named).run store).1 = .ok x → ∃ lowest middle highest,
        Layered store env global named lowest middle highest
        ∧ x.examplesDir = (Field.examplesDir.decided [lowest, middle, highest]).map (expandPath env)
        ∧ x.exportFile = expandPath env (Field.exportFile.decided [lowest, middle, highest]) := by
  refine ⟨fun path => ⟨existsUnique_division _, fun ss h => ⟨h.flatMap_written,
    expandPath_of_unset h, fun hset => ⟨fun htilde => ?_, fun htilde => ?_⟩⟩⟩,
    fun path hdollar htilde => expandPath_of_plain hdollar htilde, ?_⟩
  · rw [expandPath_of_set h hset, if_neg htilde]
  -- no stretch but a plain one starts with a tilde, so it is still the first character
  · obtain ⟨after, hafter⟩ := h.tilde_value env htilde
    refine ⟨after, hafter, fun home hhome hslash => ?_, fun hname => ?_⟩
    · rw [expandPath_of_set h hset, if_pos htilde, hafter, expandHome_of_slash hhome hslash,
        String.ofList_append, String.ofList_toList]
    · rw [expandPath_of_set h hset, if_pos htilde, hafter, expandHome_of_name hname]
  · intro σ _ store global named x hx
    obtain ⟨r, hrun, hok, -⟩ := gives_load store env global named
    rw [hrun] at hx
    obtain ⟨lowest, middle, highest, hlayered, hchoice⟩ := (hok x).1 hx
    obtain ⟨-, rfl⟩ := choose_ok_iff.1 hchoice
    exact ⟨lowest, middle, highest, hlayered, rfl, rfl⟩

/-- The value that comes from a variable is not looked at again, and the tilde before it is expanded.
    With one name that is not set all stays as it is.  The third path has nothing to expand. -/
theorem Settings.tilde_paths_expanded :
    let env : Environment :=
      .ofList [("A", "/$B"), ("HOME", "/h"), ("treejack_export_file", "~$A$$")]
    expandPath env "~$A$$" = "/h/$B$" ∧ expandPath env "~$A$B" = "~$A$B"
      ∧ expandPath env "a~" = "a~"
      ∧ ((load env none none).run MemoryStore.empty).1 = .ok ⟨none, 128, "/h/$B$", true, true⟩
      ∧ ∃ lowest middle highest, Layered MemoryStore.empty env none none lowest middle highest
        ∧ expandPath env (Field.exportFile.decided [lowest, middle, highest]) = "/h/$B$" := by
  intro env
  obtain ⟨hpaths, hplain, hload⟩ := paths_expanded_whole env
  have htilde (rest) : Stretch.Fits rest (.plain ['~']) := .char (by decide)
  have hbare {c rest} (hc : Piece.isNameChar c = true) (hrest : Text.Stops Piece.isNameChar rest) :
      Stretch.Fits rest (.bare [c]) := ⟨⟨by simp, by simpa using hc⟩, hrest⟩
  have hA : Piece.isNameChar 'A' = true := by decide +kernel
  have hB : Piece.isNameChar 'B' = true := by decide +kernel
  have hdollar (rest) : Text.Stops Piece.isNameChar ('$' :: rest) :=
    Text.stops_cons rest Piece.isNameChar_dollar
  have hdoubled (rest) : Stretch.Fits rest .doubled := trivial
  have hset : Division ['~', '$', 'A', '$', '$'] [.plain ['~'], .bare ['A'], .doubled] :=
    .cons (htilde _) (.cons (hbare hA (hdollar _)) (.cons (hdoubled _) .nil))
  have hunset : Division ['~', '$', 'A', '$', 'B'] [.plain ['~'], .bare ['A'], .bare ['B']] :=
    .cons (htilde _) (.cons (hbare hA (hdollar _)) (.cons (hbare hB (Text.stops_nil _)) .nil))
  have hvalues : [Stretch.plain ['~'], .bare ['A'], .doubled].flatMap (Stretch.value env)
      = ['~', '/', '$', 'B', '$'] := by decide +kernel
  have hloaded : ((load env none none).run MemoryStore.empty).1
      = .ok ⟨none, 128, "/h/$B$", true, true⟩ := by decide +kernel
  refine ⟨?_, ?_, hplain "a~" (by decide) (by decide), hloaded, ?_⟩
  · obtain ⟨-, -, hexpanded⟩ := (hpaths "~$A$$").2 _ hset
    obtain ⟨after, hafter, hhome, -⟩ := (hexpanded (by decide +kernel)).2 rfl
    rw [hvalues] at hafter
    obtain rfl := (List.cons.inj hafter).2
    exact hhome "/h" (by decide +kernel) (.inr rfl)
  · obtain ⟨-, hunchanged, -⟩ := (hpaths "~$A$B").2 _ hunset
    exact hunchanged (by decide +kernel)
  · obtain ⟨lowest, middle, highest, hlayered, -, hfile⟩ :=
      hload MemoryStore MemoryStore.empty none none _ hloaded
    exact ⟨lowest, middle, highest, hlayered, hfile.symm⟩

end BranchProbe
