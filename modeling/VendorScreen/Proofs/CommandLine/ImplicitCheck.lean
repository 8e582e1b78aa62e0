import Mathlib
import VendorScreen.CommandLine.Run

namespace VendorScreen.CommandLine

/-!
# Command lines without a command

In front of a command stand options, each in an argument of its own or with the next argument for
its value. The command that goes without saying is named where they end, unless a command is named
there or nothing follows.
-/

/-- Arguments that are passed over together: an option with the value behind it, or anything else
that begins with a dash, apart from the separator. -/
inductive OptionGroup where
  | valued (option value : String) (mem : option ∈ valuedOptions)
  | single (argument : String) (dash : startsWithDash argument = true)
      (notMem : argument ∉ valuedOptions) (ne_separator : argument ≠ "--")

namespace OptionGroup

def arguments : OptionGroup → List String
  | valued option value _ => [option, value]
  | single argument _ _ _ => [argument]

def spelled (groups : List OptionGroup) : List String := groups.flatMap arguments

theorem spelled_cons (group : OptionGroup) (groups : List OptionGroup) :
    spelled (group :: groups) = group.arguments ++ spelled groups := List.flatMap_cons

end OptionGroup

open OptionGroup

variable {argument option value : String} {rest : List String}

theorem dash_of_mem_valuedOptions (h : option ∈ valuedOptions) : startsWithDash option = true := by
  have hall : ∀ option ∈ valuedOptions, startsWithDash option = true := by decide
  exact hall option h

theorem ne_separator_of_mem_valuedOptions (h : option ∈ valuedOptions) : option ≠ "--" := by
  rintro rfl
  exact absurd h (by decide)

theorem not_dash_of_mem_commandNames (h : argument ∈ commandNames) :
    startsWithDash argument = false := by
  have hall : ∀ name ∈ commandNames, startsWithDash name = false := by decide
  exact hall argument h

theorem nameCheck_of_mem (h : argument ∈ commandNames) :
    nameCheck (argument :: rest) = argument :: rest := by
  rw [nameCheck, if_pos (List.contains_iff_mem.mpr h)]

theorem nameCheck_of_notMem (h : argument ∉ commandNames) :
    nameCheck (argument :: rest) = "check" :: argument :: rest := by
  rw [nameCheck, if_neg (fun hcontains => h (List.contains_iff_mem.mp hcontains))]

theorem nameCheck_nameCheck (arguments : List String) :
    nameCheck (nameCheck arguments) = nameCheck arguments := by
  cases arguments with
  | nil => rfl
  | cons argument rest =>
      by_cases h : argument ∈ commandNames
      · rw [nameCheck_of_mem h, nameCheck_of_mem h]
      · rw [nameCheck_of_notMem h]
        exact nameCheck_of_mem (by decide)

/-! ## One step at a time -/

theorem insertCheck_valued (h : option ∈ valuedOptions) :
    insertCheck (option :: value :: rest) = option :: value :: insertCheck rest := by
  rw [insertCheck, if_neg (ne_separator_of_mem_valuedOptions h),
    if_pos (List.contains_iff_mem.mpr h)]

theorem insertCheck_last (h : startsWithDash argument = true) :
    insertCheck [argument] = [argument] := by
  rw [insertCheck, if_pos h]

theorem insertCheck_single (hdash : startsWithDash argument = true)
    (hmem : argument ∉ valuedOptions) (hne : argument ≠ "--") :
    insertCheck (argument :: rest) = argument :: insertCheck rest := by
  cases rest with
  | nil => exact insertCheck_last hdash
  | cons next rest =>
      have hcontains : ¬ valuedOptions.contains argument = true :=
        fun h => hmem (List.contains_iff_mem.mp h)
      rw [insertCheck, if_neg hne, if_neg hcontains, if_pos hdash]

theorem insertCheck_separator (rest : List String) :
    insertCheck ("--" :: rest) = "--" :: nameCheck rest := by
  cases rest with
  | nil => rfl
  | cons next rest => rw [insertCheck, if_pos rfl]

theorem insertCheck_plain (h : startsWithDash argument = false) :
    insertCheck (argument :: rest) = nameCheck (argument :: rest) := by
  have hdash : ¬ startsWithDash argument = true := by simp [h]
  cases rest with
  | nil => rw [insertCheck, if_neg hdash]
  | cons next rest =>
      have hne : argument ≠ "--" := by
        rintro rfl
        exact absurd h (by decide)
      have hcontains : ¬ valuedOptions.contains argument = true :=
        fun hmem => hdash (dash_of_mem_valuedOptions (List.contains_iff_mem.mp hmem))
      rw [insertCheck, if_neg hne, if_neg hcontains, if_neg hdash]

/-- Groups are passed over, whatever stands behind them. -/
theorem insertCheck_spelled (groups : List OptionGroup) (tail : List String) :
    insertCheck (spelled groups ++ tail) = spelled groups ++ insertCheck tail := by
  induction groups with
  | nil => rfl
  | cons group groups ih =>
      rw [spelled_cons, List.append_assoc]
      cases group with
      | valued option value hmem =>
          exact (insertCheck_valued hmem).trans (congrArg (option :: value :: ·) ih)
      | single argument hdash hmem hne =>
          exact (insertCheck_single hdash hmem hne).trans (congrArg (argument :: ·) ih)

/-- Where the groups end. -/
inductive IsEnding : List String → Prop
  | nothing : IsEnding []
  | dangling {option : String} (h : option ∈ valuedOptions) : IsEnding [option]
  | separated (rest : List String) : IsEnding ("--" :: rest)
  | plain {argument : String} (h : startsWithDash argument = false) (rest : List String) :
      IsEnding (argument :: rest)

/-- All arguments are groups up to an ending. -/
theorem exists_spelled_append (arguments : List String) :
    ∃ groups ending, IsEnding ending ∧ arguments = spelled groups ++ ending := by
  -- The cases are those of the walk; an option that comes last has no value to be taken along.
  induction arguments using insertCheck.induct with
  | case1 => exact ⟨[], [], .nothing, rfl⟩
  | case2 argument hdash =>
      by_cases hmem : argument ∈ valuedOptions
      · exact ⟨[], [argument], .dangling hmem, rfl⟩
      by_cases hne : argument = "--"
      · exact ⟨[], [argument], hne ▸ .separated [], rfl⟩
      · exact ⟨[.single argument hdash hmem hne], [], .nothing, rfl⟩
  | case3 argument hdash => exact ⟨[], [argument], .plain (by simpa using hdash) [], rfl⟩
  | case4 next rest => exact ⟨[], _, .separated (next :: rest), rfl⟩
  | case5 argument next rest hne hcontains ih =>
      obtain ⟨groups, ending, hending, rfl⟩ := ih
      exact ⟨.valued argument next (List.contains_iff_mem.mp hcontains) :: groups, ending,
        hending, rfl⟩
  | case6 argument next rest hne hcontains hdash ih =>
      obtain ⟨groups, ending, hending, heq⟩ := ih
      have hmem : argument ∉ valuedOptions := fun h => hcontains (List.contains_iff_mem.mpr h)
      exact ⟨.single argument hdash hmem hne :: groups, ending, hending,
        congrArg (argument :: ·) heq⟩
  | case7 argument next rest hne hcontains hdash =>
      exact ⟨[], _, .plain (by simpa using hdash) (next :: rest), rfl⟩

theorem IsEnding.insertCheck_insertCheck {ending : List String} (h : IsEnding ending) :
    insertCheck (insertCheck ending) = insertCheck ending := by
  cases h with
  | nothing => rfl
  | dangling h =>
      have hlast := insertCheck_last (dash_of_mem_valuedOptions h)
      rw [hlast, hlast]
  | separated rest =>
      rw [insertCheck_separator, insertCheck_separator, nameCheck_nameCheck]
  | @plain argument hplain rest =>
      rw [insertCheck_plain hplain]
      by_cases hmem : argument ∈ commandNames
      · rw [nameCheck_of_mem hmem, insertCheck_plain hplain, nameCheck_of_mem hmem]
      · rw [nameCheck_of_notMem hmem, insertCheck_plain (by decide), nameCheck_of_mem (by decide)]

theorem insertCheck_insertCheck (arguments : List String) :
    insertCheck (insertCheck arguments) = insertCheck arguments := by
  obtain ⟨groups, ending, hending, rfl⟩ := exists_spelled_append arguments
  rw [insertCheck_spelled, insertCheck_spelled, hending.insertCheck_insertCheck]

/-- Behind any groups of options, an argument that neither begins with a dash nor names a command
has `check` put in front of it, and then the line is read and run as the one that says so. A line
that names a command there, or that ends there, is left as it is. No line is changed twice. -/
theorem implicit_check_behind_groups (program : String) (groups : List OptionGroup)
    (head : String) (tail : List String) :
    (startsWithDash head = false → head ∉ commandNames →
      withImplicitCheck (program :: (spelled groups ++ head :: tail)) =
          program :: (spelled groups ++ "check" :: head :: tail) ∧
        Invocation.ofArguments (insertCheck (spelled groups ++ head :: tail)) =
          Invocation.ofArguments (spelled groups ++ "check" :: head :: tail) ∧
        ∀ files env, run files env (spelled groups ++ head :: tail) =
          run files env (spelled groups ++ "check" :: head :: tail)) ∧
    (head ∈ commandNames → withImplicitCheck (program :: (spelled groups ++ head :: tail)) =
      program :: (spelled groups ++ head :: tail)) ∧
    withImplicitCheck (program :: spelled groups) = program :: spelled groups ∧
    ∀ line, withImplicitCheck (withImplicitCheck line) = withImplicitCheck line := by
  have hnamed {name : String} (hname : name ∈ commandNames) (tail : List String) :
      insertCheck (spelled groups ++ name :: tail) = spelled groups ++ name :: tail := by
    rw [insertCheck_spelled, insertCheck_plain (not_dash_of_mem_commandNames hname),
      nameCheck_of_mem hname]
  refine ⟨?_, ?_, ?_, ?_⟩
  · intro hplain hmem
    have hinsert : insertCheck (spelled groups ++ head :: tail) =
        spelled groups ++ "check" :: head :: tail := by
      rw [insertCheck_spelled, insertCheck_plain hplain, nameCheck_of_notMem hmem]
    refine ⟨congrArg (program :: ·) hinsert, congrArg Invocation.ofArguments hinsert, ?_⟩
    intro files env
    have hcheck : "check" ∈ commandNames := by decide
    rw [run, run, hinsert, hnamed hcheck]
  · intro hmem
    exact congrArg (program :: ·) (hnamed hmem tail)
  · have hnothing := insertCheck_spelled groups []
    rw [List.append_nil] at hnothing
    exact congrArg (program :: ·) (hnothing.trans (List.append_nil _))
  · intro line
    cases line with
    | nil => rfl
    | cons program arguments => exact congrArg (program :: ·) (insertCheck_insertCheck arguments)

def sampleGroups : List OptionGroup :=
  [.valued "--manifest" "packages" (by decide), .single "-dj4" (by decide) (by decide) (by decide)]

/-- The name of a command is an ordinary value behind an option. -/
theorem implicit_check_behind_groups_sample :
    startsWithDash "com.example.app" = false ∧ "com.example.app" ∉ commandNames ∧
    withImplicitCheck ["vendor-finder", "--manifest", "packages", "-dj4", "com.example.app"] =
      ["vendor-finder", "--manifest", "packages", "-dj4", "check", "com.example.app"] ∧
    "flagged" ∈ commandNames ∧
    withImplicitCheck ["vendor-finder", "--manifest", "packages", "-dj4", "flagged"] =
      ["vendor-finder", "--manifest", "packages", "-dj4", "flagged"] := by
  have hplain : startsWithDash "com.example.app" = false := by decide
  have hmem : "com.example.app" ∉ commandNames := by decide
  have hname : "flagged" ∈ commandNames := by decide
  have hunnamed := implicit_check_behind_groups "vendor-finder" sampleGroups "com.example.app" []
  have hnamed := implicit_check_behind_groups "vendor-finder" sampleGroups "flagged" []
  exact ⟨hplain, hmem, (hunnamed.1 hplain hmem).1, hname, hnamed.2.1 hname⟩

end VendorScreen.CommandLine
