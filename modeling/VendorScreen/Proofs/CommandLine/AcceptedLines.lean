import VendorScreen.Proofs.CommandLine.ImplicitCheck
import VendorScreen.Proofs.Steps

namespace VendorScreen.CommandLine

/-!
# Accepted command lines

A line that is read without a refusal gives options and then names a command. Looking for the
command that goes without saying changes nothing in it, unless flags and the letter of an option
whose value comes next share an argument: that value is then taken for what is to be checked.
-/

namespace Progress

variable {p q : Progress} {key : OptionKey} {value : String}

theorem pending_of_bind (h : p.bind key value = .ok q) : q.pending = p.pending := by
  unfold bind at h
  split at h
  · cases h
  · obtain rfl := Except.ok.inj h
    rfl

theorem pending_of_settle (h : p.settle = .ok q) : q.pending = none := by
  unfold settle at h
  split at h
  case h_1 hnone =>
    obtain rfl := Except.ok.inj h
    exact hnone
  case h_2 => cases h
  case h_3 key value hvalue => exact pending_of_bind h

theorem eq_usage_of_settle {refusal : Refusal} (h : p.settle = .error refusal) :
    refusal = .usage := by
  unfold settle at h
  split at h
  · cases h
  · exact (Except.error.inj h).symm
  · unfold bind at h
    split at h
    · exact (Except.error.inj h).symm
    · cases h

theorem not_isAwaiting_of_settle (h : p.settle = .ok q) : p.isAwaiting = false := by
  unfold isAwaiting
  split
  case h_1 key hpending => simp [settle, hpending] at h
  case h_2 => rfl

/-- The value of an option that waits for one is looked at once it is there. -/
theorem accepts_of_settle_give (hpending : p.pending = some (key, none))
    (h : (p.give value).settle = .ok q) : key.accepts value = true := by
  unfold settle at h
  simp only [give, hpending, Option.map_some] at h
  unfold bind at h
  split at h
  · cases h
  · rename_i hbind
    simp only [Bool.or_eq_true, Bool.not_eq_true', not_or] at hbind
    simpa using hbind.2

theorem settle_of_await (h : p.await key = .ok q) :
    ∃ r, p.settle = .ok r ∧ q.pending = some (key, none) := by
  unfold await at h
  obtain ⟨r, hsettle, hawait⟩ := bind_eq_ok_iff.mp h
  obtain rfl := Except.ok.inj hawait
  exact ⟨r, hsettle, rfl⟩

theorem settle_of_attach (h : p.attach key value = .ok q) :
    ∃ r, p.settle = .ok r ∧ q.pending = none := by
  unfold attach at h
  obtain ⟨r, hsettle, hbind⟩ := bind_eq_ok_iff.mp h
  exact ⟨r, hsettle, (pending_of_bind hbind).trans (pending_of_settle hsettle)⟩

theorem askHelp_ne_ok (p q : Progress) : p.askHelp ≠ .ok q := by
  unfold askHelp
  intro h
  obtain ⟨r, -, herror⟩ := bind_eq_ok_iff.mp h
  cases herror

end Progress

/-- Letters of flags, and behind them the one of the option that takes the next argument. -/
def IsWaiting (letters : List Char) : Prop :=
  ∃ flags, (∀ c ∈ flags, c = 'd' ∨ c = 't') ∧ letters = flags ++ ['j']

/-- Flags share an argument with the option that takes the next argument. -/
def IsWaitingCluster (argument : String) : Prop :=
  ∃ letters, argument.toList = '-' :: letters ∧ letters ≠ ['j'] ∧ IsWaiting letters

theorem isWaiting_cons_iff {c : Char} {letters : List Char} :
    IsWaiting (c :: letters) ↔
      (c = 'j' ∧ letters = []) ∨ ((c = 'd' ∨ c = 't') ∧ IsWaiting letters) := by
  constructor
  · rintro ⟨flags, hflags, heq⟩
    cases flags with
    | nil => exact .inl (by simpa using heq)
    | cons flag flags =>
        obtain ⟨rfl, rfl⟩ := List.cons.inj heq
        obtain ⟨hflag, hflags⟩ := List.forall_mem_cons.mp hflags
        exact .inr ⟨hflag, flags, hflags, rfl⟩
  · rintro (⟨rfl, rfl⟩ | ⟨hc, flags, hflags, rfl⟩)
    · exact ⟨[], by simp, rfl⟩
    · exact ⟨c :: flags, List.forall_mem_cons.mpr ⟨hc, hflags⟩, rfl⟩

theorem not_isWaiting_nil : ¬ IsWaiting [] := by
  rintro ⟨flags, -, heq⟩
  simp at heq

/-- The letters of the options in front of a command. -/
theorem key_of_letter {c : Char} {key : OptionKey}
    (h : program.options.find? (fun key => key.letter? = some c) = some key) :
    (key = .jobs ∧ c = 'j') ∨ (key.takesValue = false ∧ (c = 'd' ∨ c = 't')) := by
  have hmem := List.mem_of_find?_eq_some h
  have hletter : key.letter? = some c := by simpa using List.find?_some h
  cases key with
  | jobs => exact .inl ⟨rfl, (Option.some.inj hletter).symm⟩
  | debug => exact .inr ⟨rfl, .inl (Option.some.inj hletter).symm⟩
  | trace => exact .inr ⟨rfl, .inr (Option.some.inj hletter).symm⟩
  | format => exact absurd hmem (by decide)
  | manifest | apkDirectory | hostIdentifier | timeout => cases hletter

namespace Progress

variable {p q : Progress} {letters : List Char}

/-- Reading letters leaves an option without its value exactly if they end with its letter. -/
theorem pending_of_readLetters (h : program.readLetters p letters = .ok q) (hne : letters ≠ []) :
    (∃ r, p.settle = .ok r) ∧
      ((q.pending = none ∧ ¬ IsWaiting letters) ∨
        (q.pending = some (.jobs, none) ∧ IsWaiting letters)) := by
  -- A flag leaves nothing pending, so it is the last letter that decides.
  induction letters generalizing p with
  | nil => exact absurd rfl hne
  | cons c rest ih =>
      rw [Level.readLetters] at h
      split at h
      · exact absurd h (askHelp_ne_ok p q)
      split at h
      · cases h
      rename_i key hkey
      rw [isWaiting_cons_iff]
      rcases key_of_letter hkey with ⟨rfl, rfl⟩ | ⟨hflag, hletter⟩
      · have htakes : OptionKey.jobs.takesValue = true := rfl
        rw [if_pos htakes] at h
        split at h
        case isTrue hrest =>
          obtain ⟨r, hsettle, hpending⟩ := settle_of_await h
          exact ⟨⟨r, hsettle⟩, .inr ⟨hpending, .inl ⟨rfl, List.isEmpty_iff.mp hrest⟩⟩⟩
        case isFalse hrest =>
          obtain ⟨r, hsettle, hpending⟩ := settle_of_attach h
          refine ⟨⟨r, hsettle⟩, .inl ⟨hpending, ?_⟩⟩
          rintro (⟨-, hnil⟩ | ⟨hflag, -⟩)
          · exact hrest (List.isEmpty_iff.mpr hnil)
          · exact absurd hflag (by decide)
      · simp only [hflag, Bool.false_eq_true, if_false] at h
        have hne_j : c ≠ 'j' := by rcases hletter with rfl | rfl <;> decide
        obtain ⟨p', hattach, hlater⟩ := bind_eq_ok_iff.mp h
        obtain ⟨r, hsettle, hpending⟩ := settle_of_attach hattach
        refine ⟨⟨r, hsettle⟩, ?_⟩
        by_cases hrest : rest = []
        · subst hrest
          obtain rfl : p' = q := Except.ok.inj hlater
          refine .inl ⟨hpending, ?_⟩
          rintro (⟨hj, -⟩ | ⟨-, hwaiting⟩)
          · exact hne_j hj
          · exact not_isWaiting_nil hwaiting
        · obtain ⟨-, hcases⟩ := ih hlater hrest
          simpa [hne_j, hletter] using hcases

end Progress

theorem mem_valuedOptions_iff : ∀ key ∈ program.options,
    (String.ofList ('-' :: '-' :: key.word.toList) ∈ valuedOptions ↔ key.takesValue = true) := by
  decide

/-- With its value behind an equals sign, an option does not take the next argument. -/
theorem notMem_valuedOptions_of_attached {argument : String} {body value : List Char} {c : Char}
    (hargument : argument.toList = '-' :: '-' :: body)
    (hvalue : body.dropWhile (· ≠ '=') = c :: value) : argument ∉ valuedOptions := by
  have hall : ∀ option ∈ valuedOptions, '=' ∉ option.toList := by decide
  have hequals : '=' ∈ body := by
    by_contra hnone
    have hnil : body.dropWhile (· ≠ '=') = [] := by
      rw [List.dropWhile_eq_nil_iff]
      intro x hx
      simpa using ne_of_mem_of_not_mem hx hnone
    rw [hnil] at hvalue
    cases hvalue
  intro hmem
  apply hall argument hmem
  rw [hargument]
  exact List.mem_cons_of_mem _ (List.mem_cons_of_mem _ hequals)

namespace Progress

variable {p q : Progress} {argument : String} {body : List Char}

/-- Reading a word leaves an option without its value exactly if the next argument is to be it. -/
theorem pending_of_readWord (hargument : argument.toList = '-' :: '-' :: body)
    (h : program.readWord body p = .ok q) :
    (∃ r, p.settle = .ok r) ∧
      ((q.pending = none ∧ argument ∉ valuedOptions) ∨
        ((∃ key, q.pending = some (key, none)) ∧ argument ∈ valuedOptions)) := by
  have hbody : body.takeWhile (· ≠ '=') ++ body.dropWhile (· ≠ '=') = body :=
    List.takeWhile_append_dropWhile
  unfold Level.readWord at h
  cases hrest : body.dropWhile (· ≠ '=') with
  | nil =>
      rw [hrest, List.append_nil] at hbody
      simp only [hrest, hbody] at h
      split at h
      · exact absurd h (askHelp_ne_ok p q)
      split at h
      · cases h
      rename_i key hkey
      have hmem := List.mem_of_find?_eq_some hkey
      have hword : key.word = String.ofList body := by simpa using List.find?_some hkey
      have hspelled : argument = String.ofList ('-' :: '-' :: key.word.toList) := by
        rw [hword, String.toList_ofList, ← hargument, String.ofList_toList]
      rw [hspelled, mem_valuedOptions_iff key hmem]
      split at h
      case isTrue htakes =>
        obtain ⟨r, hsettle, hpending⟩ := settle_of_await h
        exact ⟨⟨r, hsettle⟩, .inr ⟨⟨key, hpending⟩, htakes⟩⟩
      case isFalse htakes =>
        obtain ⟨r, hsettle, hpending⟩ := settle_of_attach h
        exact ⟨⟨r, hsettle⟩, .inl ⟨hpending, htakes⟩⟩
  | cons c value =>
      have hnotMem := notMem_valuedOptions_of_attached hargument hrest
      simp only [hrest] at h
      split at h
      · cases h
      split at h
      · cases h
      split at h
      · obtain ⟨r, hsettle, hpending⟩ := settle_of_attach h
        exact ⟨⟨r, hsettle⟩, .inl ⟨hpending, hnotMem⟩⟩
      · cases h

end Progress

section roles

open Level

variable {argument : String} {body : List Char}

theorem toList_of_word (h : roleOf argument = .word body) :
    argument.toList = '-' :: '-' :: body ∧ body ≠ [] := by
  unfold roleOf at h
  split at h
  case h_3 body' hne heq =>
    obtain rfl := Role.word.inj h
    exact ⟨heq, hne⟩
  all_goals cases h

theorem toList_of_letters (h : roleOf argument = .letters body) :
    argument.toList = '-' :: body ∧ body ≠ [] ∧ body.head? ≠ some '-' := by
  unfold roleOf at h
  split at h
  case h_4 body' hlone hseparator hword heq =>
    obtain rfl := Role.letters.inj h
    refine ⟨heq, hlone, ?_⟩
    intro hhead
    obtain ⟨rest, hrest⟩ := List.head?_eq_some_iff.mp hhead
    exact hword rest hrest
  all_goals cases h

theorem not_dash_of_plain (h : roleOf argument = .plain) (hne : argument ≠ "-") :
    startsWithDash argument = false := by
  unfold roleOf at h
  split at h
  case h_1 heq => exact absurd (String.toList_inj.mp heq) hne
  case h_5 hletters =>
    unfold startsWithDash
    cases htext : argument.toList with
    | nil => rfl
    | cons c rest =>
        have hc : c ≠ '-' := by
          rintro rfl
          exact hletters rest htext
        simpa using hc
  all_goals cases h

end roles

theorem mem_valuedOptions_cases {option : String} (h : option ∈ valuedOptions) :
    option = "-j" ∨ option.toList.tail.head? = some '-' := by
  have hall : ∀ option ∈ valuedOptions,
      option = "-j" ∨ option.toList.tail.head? = some '-' := by decide
  exact hall option h

theorem IsWaitingCluster.notMem {argument : String} (h : IsWaitingCluster argument) :
    argument ∉ valuedOptions := by
  obtain ⟨letters, hargument, hne, hwaiting⟩ := h
  intro hmem
  rcases mem_valuedOptions_cases hmem with rfl | hhead
  · exact hne (List.cons.inj hargument).2.symm
  · rw [hargument, List.tail_cons] at hhead
    obtain ⟨rest, rfl⟩ := List.head?_eq_some_iff.mp hhead
    simp [isWaiting_cons_iff] at hwaiting

/-- The argument gives options, and the reading goes on at `q`. -/
inductive ReadsOptions (p : Progress) (argument : String) (q : Progress) : Prop
  | word {body : List Char} (role : Level.roleOf argument = .word body)
      (reads : program.readWord body p = .ok q)
  | letters {body : List Char} (role : Level.roleOf argument = .letters body)
      (reads : program.readLetters p body = .ok q)

namespace ReadsOptions

variable {p q : Progress} {argument : String} {rest : List String}

theorem dash (h : ReadsOptions p argument q) : startsWithDash argument = true := by
  cases h with
  | word role _ => simp [startsWithDash, (toList_of_word role).1]
  | letters role _ => simp [startsWithDash, (toList_of_letters role).1]

theorem ne_separator (h : ReadsOptions p argument q) : argument ≠ "--" := by
  rintro rfl
  cases h with
  | word role _ => cases role
  | letters role _ => cases role

/-- An argument leaves an option without its value exactly if it is one of those that take the next
argument, or ends in the letter of one. -/
theorem pending_cases (h : ReadsOptions p argument q) :
    (q.pending = none ∧ argument ∉ valuedOptions ∧ ¬ IsWaitingCluster argument) ∨
      ∃ key, q.pending = some (key, none) ∧
        (argument ∈ valuedOptions ∨ (key = .jobs ∧ IsWaitingCluster argument)) := by
  cases h with
  | word role reads =>
      obtain ⟨hargument, hbody⟩ := toList_of_word role
      rcases (Progress.pending_of_readWord hargument reads).2 with
        ⟨hpending, hmem⟩ | ⟨⟨key, hpending⟩, hmem⟩
      · refine .inl ⟨hpending, hmem, ?_⟩
        rintro ⟨letters, hletters, -, hwaiting⟩
        rw [hargument] at hletters
        obtain rfl := (List.cons.inj hletters).2
        simp [isWaiting_cons_iff] at hwaiting
      · exact .inr ⟨key, hpending, .inl hmem⟩
  | @letters body role reads =>
      obtain ⟨hargument, hbody, hhead⟩ := toList_of_letters role
      rcases (Progress.pending_of_readLetters reads hbody).2 with
        ⟨hpending, hwaiting⟩ | ⟨hpending, hwaiting⟩
      · refine .inl ⟨hpending, ?_, ?_⟩
        · intro hmem
          rcases mem_valuedOptions_cases hmem with rfl | hword
          · obtain rfl := (List.cons.inj hargument).2
            exact hwaiting ⟨[], by simp, rfl⟩
          · rw [hargument] at hword
            exact hhead hword
        · rintro ⟨letters, hletters, -, hwaiting'⟩
          rw [hargument] at hletters
          obtain rfl := (List.cons.inj hletters).2
          exact hwaiting hwaiting'
      · refine .inr ⟨.jobs, hpending, ?_⟩
        by_cases hlone : body = ['j']
        · have hj : argument = "-j" := String.toList_inj.mp (by rw [hargument, hlone]; rfl)
          exact .inl (hj ▸ by decide)
        · exact .inr ⟨rfl, body, hargument, hlone, hwaiting⟩

theorem exists_settle (h : ReadsOptions p argument q) : ∃ r, p.settle = .ok r := by
  cases h with
  | word role reads => exact (Progress.pending_of_readWord (toList_of_word role).1 reads).1
  | letters role reads =>
      exact (Progress.pending_of_readLetters reads (toList_of_letters role).2.1).1

theorem read_eq (h : ReadsOptions p argument q) (rest : List String) :
    program.read p (argument :: rest) = program.read q rest := by
  have hdash := h.dash
  have hname : ¬ (!p.isAwaiting && program.subcommands.contains argument) = true := by
    intro hname
    have hmem : argument ∈ commandNames := by
      simpa [program] using (Bool.and_eq_true_iff.mp hname).2
    rw [not_dash_of_mem_commandNames hmem] at hdash
    cases hdash
  rw [Level.read, if_neg hname]
  cases h with
  | word role reads => simp only [role, reads, Bind.bind, Except.bind]
  | letters role reads => simp only [role, reads, Bind.bind, Except.bind]

end ReadsOptions

section reading

variable {p q : Progress} {key : OptionKey} {value name : String} {arguments rest : List String}

theorem isAwaiting_of_pending (h : p.pending = some (key, none)) : p.isAwaiting = true := by
  simp [Progress.isAwaiting, h]

theorem isAwaiting_of_pending_none (h : p.pending = none) : p.isAwaiting = false := by
  simp [Progress.isAwaiting, h]

theorem isAwaiting_give (hpending : p.pending = some (key, none)) (value : String) :
    (p.give value).isAwaiting = false := by
  simp [Progress.isAwaiting, Progress.give, hpending]

theorem read_value (hpending : p.pending = some (key, none))
    (hrole : Level.roleOf value = .plain) (rest : List String) :
    program.read p (value :: rest) = program.read (p.give value) rest := by
  simp [Level.read, isAwaiting_of_pending hpending, hrole]

/-- No operand stands in front of a command. -/
theorem takeOperand_program (p : Progress) (operand : String) :
    program.takeOperand operand p = .error .usage := by
  unfold Level.takeOperand
  cases hsettle : p.settle with
  | error refusal =>
      rw [Progress.eq_usage_of_settle hsettle]
      rfl
  | ok r => rfl

/-- What comes first in a line that is read up to the name of a command: that name, an argument that
gives options, or the value of an option. -/
theorem read_cases (h : program.read p arguments = .ok (q, some (name, rest))) :
    (p.isAwaiting = false ∧ arguments = name :: rest ∧ name ∈ commandNames ∧ p = q) ∨
      (∃ argument later p', arguments = argument :: later ∧ ReadsOptions p argument p' ∧
        program.read p' later = .ok (q, some (name, rest))) ∨
      ∃ value later, p.isAwaiting = true ∧ arguments = value :: later ∧
        Level.roleOf value = .plain ∧
        program.read (p.give value) later = .ok (q, some (name, rest)) := by
  cases arguments with
  | nil => simp [Level.read] at h
  | cons argument later =>
      rw [Level.read] at h
      split at h
      case isTrue hname =>
        obtain ⟨hp, hmem⟩ := Bool.and_eq_true_iff.mp hname
        rw [Except.ok.injEq, Prod.mk.injEq, Option.some.injEq, Prod.mk.injEq] at h
        obtain ⟨rfl, rfl, rfl⟩ := h
        exact .inl ⟨by simpa using hp, rfl, by simpa [program] using hmem, rfl⟩
      case isFalse =>
        split at h
        case h_1 =>
          obtain ⟨p', -, hfound⟩ := bind_eq_ok_iff.mp h
          cases hfound
        case h_2 body hrole =>
          obtain ⟨p', hreads, hlater⟩ := bind_eq_ok_iff.mp h
          exact .inr (.inl ⟨argument, later, p', rfl, .word hrole hreads, hlater⟩)
        case h_3 body hrole =>
          obtain ⟨p', hreads, hlater⟩ := bind_eq_ok_iff.mp h
          exact .inr (.inl ⟨argument, later, p', rfl, .letters hrole hreads, hlater⟩)
        case h_4 hrole =>
          split at h
          case isTrue hp => exact .inr (.inr ⟨argument, later, hp, rfl, hrole, h⟩)
          case isFalse =>
            obtain ⟨p', hoperand, -⟩ := bind_eq_ok_iff.mp h
            rw [takeOperand_program] at hoperand
            cases hoperand

/-- The arguments give options, each alone or with the next argument for its value. -/
inductive GivesOptions : Progress → List String → Progress → Prop
  | done (p : Progress) : GivesOptions p [] p
  | alone {p p' q : Progress} {argument : String} {rest : List String}
      (reads : ReadsOptions p argument p') (pending : p'.pending = none)
      (gives : GivesOptions p' rest q) : GivesOptions p (argument :: rest) q
  | withNext {p p' q : Progress} {key : OptionKey} {argument value : String} {rest : List String}
      (reads : ReadsOptions p argument p') (pending : p'.pending = some (key, none))
      (role : Level.roleOf value = .plain) (gives : GivesOptions (p'.give value) rest q) :
      GivesOptions p (argument :: value :: rest) q

theorem exists_givesOptions (hp : p.isAwaiting = false)
    (h : program.read p arguments = .ok (q, some (name, rest))) :
    ∃ front, arguments = front ++ name :: rest ∧ GivesOptions p front q ∧ name ∈ commandNames := by
  -- An option is read together with its value, so the induction is on the length of the line.
  induction hlength : arguments.length using Nat.strong_induction_on generalizing p arguments with
  | h n ih =>
    subst hlength
    rcases read_cases h with ⟨-, rfl, hname, rfl⟩ | ⟨argument, later, p', rfl, hreads, hlater⟩ |
      ⟨value, later, hawaiting, -⟩
    · exact ⟨[], rfl, .done p, hname⟩
    · rcases hreads.pending_cases with ⟨hpending, -⟩ | ⟨key, hpending, -⟩
      · obtain ⟨front, rfl, hgives, hname⟩ := ih later.length (by simp)
          (isAwaiting_of_pending_none hpending) hlater rfl
        exact ⟨argument :: front, rfl, .alone hreads hpending hgives, hname⟩
      · have hawaiting := isAwaiting_of_pending hpending
        rcases read_cases hlater with ⟨hp', -⟩ | ⟨_, _, _, -, hreads', -⟩ |
          ⟨value, later', -, rfl, hrole, hlater'⟩
        · rw [hp'] at hawaiting
          cases hawaiting
        · obtain ⟨r, hsettle⟩ := hreads'.exists_settle
          rw [Progress.not_isAwaiting_of_settle hsettle] at hawaiting
          cases hawaiting
        · obtain ⟨front, rfl, hgives, hname⟩ := ih later'.length (by simp)
            (isAwaiting_give hpending value) hlater' rfl
          exact ⟨argument :: value :: front, rfl, .withNext hreads hpending hrole hgives, hname⟩
    · rw [hp] at hawaiting
      cases hawaiting

/-- What is pending is looked at later on, if not at once. -/
theorem GivesOptions.exists_settle (h : GivesOptions p arguments q) {r : Progress}
    (hq : q.settle = .ok r) : ∃ r', p.settle = .ok r' := by
  cases h with
  | done => exact ⟨r, hq⟩
  | alone reads _ _ => exact reads.exists_settle
  | withNext reads _ _ _ => exact reads.exists_settle

theorem not_dash_of_isCount (hrole : Level.roleOf value = .plain)
    (hcount : OptionKey.isCount value = true) : startsWithDash value = false := by
  apply not_dash_of_plain hrole
  rintro rfl
  exact absurd hcount (by decide)

theorem notMem_of_isCount (hcount : OptionKey.isCount value = true) : value ∉ commandNames := by
  have hall : ∀ name ∈ commandNames, ¬ OptionKey.isCount name = true := by decide
  exact fun hmem => hall value hmem hcount

theorem not_isWaitingCluster_of_plain (hrole : Level.roleOf value = .plain) :
    ¬ IsWaitingCluster value := by
  rintro ⟨letters, hvalue, -, hwaiting⟩
  by_cases hlone : value = "-"
  · subst hlone
    obtain rfl := (List.cons.inj hvalue).2
    exact not_isWaiting_nil hwaiting
  · have hplain := not_dash_of_plain hrole hlone
    simp [startsWithDash, hvalue] at hplain

/-- Once `check` has been taken for the number of jobs, the line is refused. -/
theorem read_check (hpending : p.pending = some (.jobs, none))
    (hrole : Level.roleOf value = .plain) (hname : value ∉ commandNames) :
    program.read p ("check" :: value :: rest) = .error .usage := by
  have hcheck : Level.roleOf "check" = .plain := rfl
  have hother : ¬ (!(p.give "check").isAwaiting && program.subcommands.contains value) = true := by
    simpa [program] using fun _ => hname
  rw [read_value hpending hcheck, Level.read, if_neg hother, hrole]
  simp [isAwaiting_give hpending, takeOperand_program, Bind.bind, Except.bind]

/-- Behind a cluster that waits, the number of jobs is taken for what is to be checked. -/
theorem read_insertCheck_of_isWaitingCluster {argument : String}
    (hcluster : IsWaitingCluster argument) (hreads : ReadsOptions p argument q)
    (hpending : q.pending = some (.jobs, none)) (hrole : Level.roleOf value = .plain)
    (hcount : OptionKey.isCount value = true) (rest : List String) :
    program.read p (insertCheck (argument :: value :: rest)) = .error .usage := by
  have hname := notMem_of_isCount hcount
  rw [insertCheck_single hreads.dash hcluster.notMem hreads.ne_separator,
    insertCheck_plain (not_dash_of_isCount hrole hcount), nameCheck_of_notMem hname,
    hreads.read_eq, read_check hpending hrole hname]

/-- Options in front of the name of a command are passed over, up to a cluster that waits. -/
theorem GivesOptions.insertCheck_cases (h : GivesOptions p arguments q) {r : Progress}
    (hq : q.settle = .ok r) (hname : name ∈ commandNames) (rest : List String) :
    ((∀ argument ∈ arguments, ¬ IsWaitingCluster argument) ∧
        insertCheck (arguments ++ name :: rest) = arguments ++ name :: rest) ∨
      ((∃ argument ∈ arguments, IsWaitingCluster argument) ∧
        program.read p (insertCheck (arguments ++ name :: rest)) = .error .usage) := by
  -- The two walks part only where a value is waited for behind an argument that is not listed.
  induction h with
  | done p =>
      have hplain := not_dash_of_mem_commandNames hname
      exact .inl ⟨by simp, by rw [List.nil_append, insertCheck_plain hplain, nameCheck_of_mem hname]⟩
  | @alone p p' q argument later reads pending gives ih =>
      rcases reads.pending_cases with ⟨-, hmem, hcluster⟩ | ⟨key, hpending, -⟩
      · rw [List.cons_append, insertCheck_single reads.dash hmem reads.ne_separator, reads.read_eq]
        rcases ih hq with ⟨hnone, hsame⟩ | ⟨hsome, hrefused⟩
        · exact .inl ⟨List.forall_mem_cons.mpr ⟨hcluster, hnone⟩, congrArg _ hsame⟩
        · exact .inr ⟨by simpa using .inr hsome, hrefused⟩
      · rw [pending] at hpending
        cases hpending
  | @withNext p p' q key argument value later reads pending role gives ih =>
      have hvalue := not_isWaitingCluster_of_plain role
      rcases reads.pending_cases with ⟨hnone, -⟩ | ⟨key', hpending, hmem | ⟨rfl, hcluster⟩⟩
      · rw [pending] at hnone
        cases hnone
      · rw [List.cons_append, List.cons_append, insertCheck_valued hmem, reads.read_eq,
          read_value pending role]
        have hargument : ¬ IsWaitingCluster argument := fun h => h.notMem hmem
        rcases ih hq with ⟨hnone, hsame⟩ | ⟨hsome, hrefused⟩
        · refine .inl ⟨?_, congrArg (argument :: value :: ·) hsame⟩
          exact List.forall_mem_cons.mpr ⟨hargument, List.forall_mem_cons.mpr ⟨hvalue, hnone⟩⟩
        · obtain ⟨cluster, hmem', hcluster⟩ := hsome
          have hlater := List.mem_cons_of_mem argument (List.mem_cons_of_mem value hmem')
          exact .inr ⟨⟨cluster, hlater, hcluster⟩, hrefused⟩
      · obtain ⟨r', hsettle⟩ := gives.exists_settle hq
        have hcount : OptionKey.isCount value = true :=
          Progress.accepts_of_settle_give hpending hsettle
        refine .inr ⟨⟨argument, List.mem_cons_self, hcluster⟩, ?_⟩
        exact read_insertCheck_of_isWaitingCluster hcluster reads hpending role hcount _

end reading

/-- The line names its command behind these arguments. -/
def NamesCommandBehind (line front : List String) : Prop :=
  ∃ p name rest, line = front ++ name :: rest ∧
    program.read .start line = .ok (p, some (name, rest))

theorem exists_of_ofArguments {line : List String} {i : Invocation}
    (h : Invocation.ofArguments line = .ok i) : ∃ p name rest r,
      program.read .start line = .ok (p, some (name, rest)) ∧ p.settle = .ok r := by
  unfold Invocation.ofArguments at h
  obtain ⟨⟨p, found⟩, hread, h⟩ := bind_eq_ok_iff.mp h
  dsimp only at h
  split at h
  · cases h
  · cases h
  · obtain ⟨_, -, h⟩ := bind_eq_ok_iff.mp h
    obtain ⟨_, -, h⟩ := bind_eq_ok_iff.mp h
    obtain ⟨_, -, h⟩ := bind_eq_ok_iff.mp h
    obtain ⟨r, hsettle, -⟩ := bind_eq_ok_iff.mp h
    exact ⟨p, _, _, r, hread, hsettle⟩

/-- A line that is accepted as it stands names its command behind some options. It is left as it is
unless one of these is a cluster that waits, and then it is refused. -/
theorem accepted_line_kept_iff (line : List String) (i : Invocation)
    (h : Invocation.ofArguments line = .ok i) :
    ∃ front, NamesCommandBehind line front ∧
      (Invocation.ofArguments (insertCheck line) = .ok i ↔
        ∀ argument ∈ front, ¬ IsWaitingCluster argument) ∧
      (insertCheck line = line ∨
        Invocation.ofArguments (insertCheck line) = .error .usage) := by
  obtain ⟨p, name, rest, r, hread, hsettle⟩ := exists_of_ofArguments h
  obtain ⟨front, rfl, hgives, hname⟩ := exists_givesOptions rfl hread
  refine ⟨front, ⟨p, name, rest, rfl, hread⟩, ?_⟩
  rcases hgives.insertCheck_cases hsettle hname rest with ⟨hnone, hsame⟩ | ⟨hsome, hrefused⟩
  · exact ⟨⟨fun _ => hnone, fun _ => by rw [hsame, h]⟩, .inl hsame⟩
  · have hrefusal : Invocation.ofArguments (insertCheck (front ++ name :: rest)) =
        .error .usage := bind_eq_error_iff.mpr (.inl hrefused)
    refine ⟨⟨fun haccepted => ?_, fun hnone => ?_⟩, .inr hrefusal⟩
    · rw [hrefusal] at haccepted
      cases haccepted
    · obtain ⟨argument, hmem, hcluster⟩ := hsome
      exact absurd hcluster (hnone argument hmem)

/-- The same options in separate arguments, or with the value attached, are left alone. -/
theorem accepted_line_kept_iff_attached :
    Invocation.ofArguments ["-dj4", "--host-id", "check", "packages"] =
      .ok ⟨.packages, none, none, some "check", none, some 4, true, false⟩ ∧
    ∃ front, NamesCommandBehind ["-dj4", "--host-id", "check", "packages"] front ∧
      (∀ argument ∈ front, ¬ IsWaitingCluster argument) ∧
      insertCheck ["-dj4", "--host-id", "check", "packages"] =
        ["-dj4", "--host-id", "check", "packages"] := by
  have haccepted : Invocation.ofArguments ["-dj4", "--host-id", "check", "packages"] =
      .ok ⟨.packages, none, none, some "check", none, some 4, true, false⟩ := by decide +kernel
  have hsame : insertCheck ["-dj4", "--host-id", "check", "packages"] =
      ["-dj4", "--host-id", "check", "packages"] := by decide +kernel
  obtain ⟨front, hfront, hkept, -⟩ := accepted_line_kept_iff _ _ haccepted
  have hnone := hkept.mp (by rw [hsame, haccepted])
  exact ⟨haccepted, front, hfront, hnone, hsame⟩

/-- A line that lists the packages with four jobs is refused once `check` is put into it. -/
theorem cluster_line_refused :
    Invocation.ofArguments ["-dj", "4", "packages"] =
      .ok ⟨.packages, none, none, none, none, some 4, true, false⟩ ∧
    insertCheck ["-dj", "4", "packages"] = ["-dj", "check", "4", "packages"] ∧
    Invocation.ofArguments (insertCheck ["-dj", "4", "packages"]) = .error .usage := by
  decide +kernel

end VendorScreen.CommandLine
