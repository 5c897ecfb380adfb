import ApiHeader.Command.Request
import ApiHeader.Proofs.TagLists

/-!
# Spellings of a command line

What a command line asks for is a list of options with their values
(`Occurrence`), each of which can be written in several ways (`Occurrence.Spells`). The
reading of arguments follows one occurrence at a time: whatever the spelling, once the
draft is settled it has the occurrence and nothing else new (`Draft.foldlM_add_of_spells`).
So all command lines for the same occurrences, in any spelling and order, are accepted
and ask for the same (`any_spelling_accepted`).
-/

set_option autoImplicit false
set_option relaxedAutoImplicit false

namespace ApiHeader

/-! ### Occurrences of options -/

namespace ValueOption

/-- The name after two hyphens. -/
def long : ValueOption → String
  | input => "input"
  | output => "output"
  | excludeTags => "exclude-tags"
  | typePrefix => "type-prefix"
  | functionPrefix => "function-prefix"

/-- The letter after one hyphen, for options that have one. -/
def short? : ValueOption → Option Char
  | input => some 'i'
  | output => some 'o'
  | excludeTags => some 'x'
  | _ => none

theorem ofLong?_long (option : ValueOption) :
    CommandOption.ofLong? option.long = some (.value option) := by
  cases option <;> rfl

theorem ne_equals_of_mem_long (option : ValueOption) :
    ∀ c ∈ option.long.toList, decide (c ≠ '=') = true :=
  List.all_eq_true.mp (by cases option <;> rfl)

theorem toList_long_ne_nil (option : ValueOption) : option.long.toList ≠ [] := by
  cases option <;> decide

theorem ofShort?_of_short? {option : ValueOption} {c : Char} (h : option.short? = some c) :
    CommandOption.ofShort? c = some (.value option) ∧ c ≠ '-' := by
  cases option <;> cases h <;> exact ⟨rfl, by decide⟩

end ValueOption

/-- An option as it is given once, with its value. -/
inductive Occurrence where
  | value (option : ValueOption) (value : String)
  | procs
  deriving DecidableEq

namespace Occurrence

def option : Occurrence → CommandOption
  | value option _ => .value option
  | procs => .flag .procs

/-- The value, when the occurrence is of that option. -/
def valueOf? (option : ValueOption) : Occurrence → Option String
  | value other v => if other = option then some v else none
  | procs => none

/-- The values of an option, in order. -/
def values (option : ValueOption) (occurrences : List Occurrence) : List String :=
  occurrences.filterMap (valueOf? option)

/-- Options other than lists of tags are given at most once. -/
def GivenOnce (occurrences : List Occurrence) : Prop :=
  ∀ option, option ≠ .value .excludeTags → (occurrences.map Occurrence.option).count option ≤ 1

/-- A value that can be an argument of its own, because it does not look like an option. -/
def StandsAlone (v : String) : Prop :=
  v.toList.head? ≠ some '-' ∨ v = "-"

/-- The arguments that an occurrence can be written as. -/
inductive Spells : Occurrence → List String → Prop where
  | procs : Spells .procs ["--procs"]
  | long (option : ValueOption) {v : String} (halone : StandsAlone v) :
      Spells (.value option v) ["--" ++ option.long, v]
  | longEquals (option : ValueOption) (v : String) :
      Spells (.value option v) ["--" ++ option.long ++ "=" ++ v]
  | short {option : ValueOption} {c : Char} {v : String} (hshort : option.short? = some c)
      (halone : StandsAlone v) : Spells (.value option v) ["-" ++ String.singleton c, v]
  | shortEquals {option : ValueOption} {c : Char} (v : String) (hshort : option.short? = some c) :
      Spells (.value option v) ["-" ++ String.singleton c ++ "=" ++ v]
  | shortAttached {option : ValueOption} {c : Char} {v : String}
      (hshort : option.short? = some c) (hequals : v.toList.head? ≠ some '=') :
      Spells (.value option v) ["-" ++ String.singleton c ++ v]

/-- A command line has the occurrences in some order, each in some spelling. -/
def SpelledBy (occurrences : List Occurrence) (arguments : List String) : Prop :=
  ∃ ordered pieces, ordered.Perm occurrences ∧ List.Forall₂ Spells ordered pieces ∧
    arguments = pieces.flatten

end Occurrence

/-- The request that has the values of the occurrences. -/
def Request.asked (occurrences : List Occurrence) : Request where
  input := (Occurrence.values .input occurrences).head?.getD "dawn.json"
  output := (Occurrence.values .output occurrences).head?
  excludeTags := Occurrence.values .excludeTags occurrences
  typePrefix := (Occurrence.values .typePrefix occurrences).head?
  functionPrefix := (Occurrence.values .functionPrefix occurrences).head?
  procs := decide (.procs ∈ occurrences)

/-! ### Reading one occurrence -/

namespace Draft

open Occurrence

variable {d settled next : Draft}

/-- The draft becomes another one as soon as the awaited option takes effect, and options
can still come. -/
structure Becomes (d settled : Draft) : Prop where
  settle : d.settle = .ok settled
  optionsOpen : d.optionsEnded = false
  settledOpen : settled.optionsEnded = false
  settledAwaits : settled.awaiting = none

/-- Lets an occurrence take effect at once. -/
def put (d : Draft) : Occurrence → Except UsageError Draft
  | .value option v => d.setValue option v
  | .procs => if d.procs then .error (.repeated (.flag .procs)) else .ok { d with procs := true }

theorem eq_of_once {option : ValueOption} {old : Option String} {v : String} {isPath : Bool}
    {set : String → Draft} (h : once option old v isPath set = .ok next) : next = set v := by
  unfold once at h
  split_ifs at h
  exact (Except.ok.inj h).symm

/-- An occurrence leaves alone which option is awaited and whether options can come. -/
theorem put_frame {occurrence : Occurrence} (h : d.put occurrence = .ok next) :
    next.awaiting = d.awaiting ∧ next.optionsEnded = d.optionsEnded := by
  cases occurrence with
  | value option v =>
    rw [put] at h
    cases option with
    | excludeTags =>
      obtain rfl := Except.ok.inj h
      exact ⟨rfl, rfl⟩
    | _ =>
      simp only [setValue] at h
      obtain rfl := eq_of_once h
      exact ⟨rfl, rfl⟩
  | procs =>
    rw [put] at h
    split_ifs at h
    obtain rfl := Except.ok.inj h
    exact ⟨rfl, rfl⟩

/-- A draft that awaits nothing does so after an occurrence, too. -/
theorem Becomes.put (hd : d.Becomes settled) {occurrence : Occurrence}
    (hput : settled.put occurrence = .ok next) : next.Becomes next where
  settle := by rw [Draft.settle, (put_frame hput).1, hd.settledAwaits]
  optionsOpen := (put_frame hput).2.trans hd.settledOpen
  settledOpen := (put_frame hput).2.trans hd.settledOpen
  settledAwaits := (put_frame hput).1.trans hd.settledAwaits

/-- A value that is attached to its option takes effect at once. -/
theorem Becomes.addValue_some (hd : d.Becomes settled) (option : ValueOption) (v : String) :
    d.addValue option (some v) = settled.put (.value option v) := by
  rw [addValue, hd.settle]
  rfl

theorem Becomes.addFlag_procs (hd : d.Becomes settled) :
    d.addFlag .procs = settled.put .procs := by
  rw [addFlag, hd.settle]
  rfl

theorem add_long (hopen : d.optionsEnded = false) {body : List Char} (hbody : body ≠ [])
    {argument : String} (harg : argument.toList = '-' :: '-' :: body) :
    d.add argument = d.addLong body := by
  cases body with
  | nil => exact absurd rfl hbody
  | cons c rest => simp [add, hopen, harg]

theorem add_short (hopen : d.optionsEnded = false) {c : Char} (hc : c ≠ '-') {rest : List Char}
    {argument : String} (harg : argument.toList = '-' :: c :: rest) :
    d.add argument = d.addShort (c :: rest) := by
  simp [add, hopen, harg, hc]

theorem add_alone (hopen : d.optionsEnded = false) {v : String} (halone : StandsAlone v) :
    d.add v = d.addPlain v := by
  rw [add, hopen, if_neg Bool.false_ne_true]
  rcases halone with hhead | rfl
  · split
    · rename_i hv
      exact absurd (by rw [hv]; rfl) hhead
    · rename_i hv
      exact absurd (by rw [hv]; rfl) hhead
    · rename_i hv
      exact absurd (by rw [hv]; rfl) hhead
    · rfl
  · rfl

/-- A value that is an argument of its own takes effect once the draft is settled. -/
theorem Becomes.add_after_addValue (hd : d.Becomes settled) {option : ValueOption} {v : String}
    (halone : StandsAlone v) (hput : settled.put (.value option v) = .ok next) :
    ∃ named final, d.addValue option none = .ok named ∧ named.add v = .ok final ∧
      final.Becomes next := by
  refine ⟨{ settled with awaiting := some (option, none) },
    { settled with awaiting := some (option, some v) }, ?_, ?_, ?_⟩
  · rw [addValue, hd.settle]
    rfl
  · rw [add_alone (by exact hd.settledOpen) halone]
    rfl
  · refine ⟨?_, hd.settledOpen, (hd.put hput).settledOpen, (hd.put hput).settledAwaits⟩
    have hplain : { settled with awaiting := none } = settled := by
      rw [← hd.settledAwaits]
    change Draft.put { settled with awaiting := none } (.value option v) = .ok next
    rw [hplain, hput]

theorem addLong_long (d : Draft) (option : ValueOption) :
    d.addLong option.long.toList = d.addValue option none := by
  have hname : option.long.toList.takeWhile (· ≠ '=') = option.long.toList :=
    List.takeWhile_eq_self_iff.mpr option.ne_equals_of_mem_long
  have hrest : option.long.toList.dropWhile (· ≠ '=') = [] :=
    List.dropWhile_eq_nil_iff.mpr option.ne_equals_of_mem_long
  simp only [addLong, hname, hrest, String.ofList_toList, ValueOption.ofLong?_long]

theorem addLong_long_equals (d : Draft) (option : ValueOption) (v : String) :
    d.addLong (option.long.toList ++ '=' :: v.toList) = d.addValue option (some v) := by
  have hname : (option.long.toList ++ '=' :: v.toList).takeWhile (· ≠ '=') =
      option.long.toList := by
    rw [List.takeWhile_append_of_pos option.ne_equals_of_mem_long]
    simp
  have hrest : (option.long.toList ++ '=' :: v.toList).dropWhile (· ≠ '=') =
      '=' :: v.toList := by
    rw [List.dropWhile_append_of_pos option.ne_equals_of_mem_long]
    simp
  simp only [addLong, hname, hrest, String.ofList_toList, ValueOption.ofLong?_long]

theorem foldlM_add_single {argument : String} (h : d.add argument = .ok next) :
    [argument].foldlM add d = .ok next := by
  rw [List.foldlM_cons, h]
  rfl

theorem foldlM_add_pair {named : Draft} {argument v : String} (h : d.add argument = .ok named)
    (hv : named.add v = .ok next) : [argument, v].foldlM add d = .ok next := by
  rw [List.foldlM_cons, h]
  exact foldlM_add_single hv

/-- Whatever the spelling of an occurrence, the draft becomes what it is with the
occurrence in it. -/
theorem foldlM_add_of_spells (hd : d.Becomes settled) {occurrence : Occurrence}
    {piece : List String} (hspells : occurrence.Spells piece)
    (hvalue : ∀ option, occurrence ≠ .value option "")
    (hput : settled.put occurrence = .ok next) :
    ∃ final, piece.foldlM add d = .ok final ∧ final.Becomes next := by
  have hnext := hd.put hput
  cases hspells with
  | procs =>
    refine ⟨next, foldlM_add_single ?_, hnext⟩
    have hbody : "--procs".toList = '-' :: '-' :: "procs".toList := rfl
    rw [← hput, ← hd.addFlag_procs, add_long hd.optionsOpen (by decide) hbody]
    rfl
  | @long option v halone =>
    obtain ⟨named, final, hnamed, hfinal, hbecomes⟩ := hd.add_after_addValue halone hput
    refine ⟨final, foldlM_add_pair ?_ hfinal, hbecomes⟩
    rw [add_long hd.optionsOpen option.toList_long_ne_nil (by simp), addLong_long, hnamed]
  | longEquals option v =>
    refine ⟨next, foldlM_add_single ?_, hnext⟩
    have hbody : ("--" ++ option.long ++ "=" ++ v).toList =
        '-' :: '-' :: (option.long.toList ++ '=' :: v.toList) := by simp
    rw [add_long hd.optionsOpen (by simp) hbody, addLong_long_equals, hd.addValue_some, hput]
  | @short option c v hshort halone =>
    obtain ⟨named, final, hnamed, hfinal, hbecomes⟩ := hd.add_after_addValue halone hput
    refine ⟨final, foldlM_add_pair ?_ hfinal, hbecomes⟩
    have hbody : ("-" ++ String.singleton c).toList = ['-', c] := by simp
    obtain ⟨hoption, hc⟩ := ValueOption.ofShort?_of_short? hshort
    rw [add_short hd.optionsOpen hc hbody, addShort, hoption]
    exact hnamed
  | @shortEquals option c v hshort =>
    refine ⟨next, foldlM_add_single ?_, hnext⟩
    have hbody : ("-" ++ String.singleton c ++ "=" ++ v).toList =
        '-' :: c :: '=' :: v.toList := by simp
    obtain ⟨hoption, hc⟩ := ValueOption.ofShort?_of_short? hshort
    rw [add_short hd.optionsOpen hc hbody, addShort, hoption]
    simp only [String.ofList_toList]
    rw [hd.addValue_some, hput]
  | @shortAttached option c v hshort hequals =>
    refine ⟨next, foldlM_add_single ?_, hnext⟩
    have hbody : ("-" ++ String.singleton c ++ v).toList = '-' :: c :: v.toList := by simp
    obtain ⟨hoption, hc⟩ := ValueOption.ofShort?_of_short? hshort
    rw [add_short hd.optionsOpen hc hbody, addShort, hoption]
    dsimp only
    split
    · rename_i hempty
      exact absurd (congrArg (value option) (String.toList_eq_nil_iff.mp hempty)) (hvalue option)
    · rename_i hfirst
      exact absurd (by rw [hfirst]; rfl) hequals
    · rw [String.ofList_toList, hd.addValue_some, hput]

/-- What holds of one occurrence holds of any number of them. -/
theorem foldlM_add_of_forall₂ {occurrences : List Occurrence} {pieces : List (List String)}
    (hspells : List.Forall₂ Spells occurrences pieces) (hd : d.Becomes settled)
    (hvalues : ∀ option, .value option "" ∉ occurrences)
    (hput : occurrences.foldlM put settled = .ok next) :
    ∃ final, pieces.flatten.foldlM add d = .ok final ∧ final.Becomes next := by
  induction hspells generalizing d settled with
  | nil =>
    obtain rfl := Except.ok.inj hput
    exact ⟨d, rfl, hd⟩
  | @cons occurrence piece occurrences pieces hpiece _ ih =>
    rw [List.foldlM_cons] at hput
    cases hfirst : settled.put occurrence with
    | error e =>
      rw [hfirst] at hput
      cases hput
    | ok middle =>
      rw [hfirst] at hput
      obtain ⟨between, hbetween, hbecomes⟩ := foldlM_add_of_spells hd hpiece
        (fun option h ↦ hvalues option (h ▸ List.mem_cons_self)) hfirst
      obtain ⟨final, hfinal, hnext⟩ := ih hbecomes
        (fun option h ↦ hvalues option (List.mem_cons_of_mem _ h)) hput
      refine ⟨final, ?_, hnext⟩
      rw [List.flatten_cons, List.foldlM_append, hbetween]
      exact hfinal

end Draft

/-! ### Reading all occurrences -/

namespace Occurrence

theorem values_concat (option : ValueOption) (occurrences : List Occurrence)
    (occurrence : Occurrence) : values option (occurrences ++ [occurrence]) =
      values option occurrences ++ (occurrence.valueOf? option).toList := by
  rw [values, List.filterMap_append]
  cases h : occurrence.valueOf? option <;> simp [values, h]

theorem length_values (option : ValueOption) (occurrences : List Occurrence) :
    (values option occurrences).length =
      (occurrences.map Occurrence.option).count (.value option) := by
  induction occurrences with
  | nil => rfl
  | cons occurrence rest ih =>
    rw [values, List.filterMap_cons, List.map_cons, List.count_cons, ← ih]
    cases occurrence with
    | procs => simp [valueOf?, Occurrence.option, values]
    | value other v =>
      by_cases hother : other = option <;> simp [valueOf?, Occurrence.option, values, hother]

theorem GivenOnce.length_values_le {occurrences : List Occurrence} (honce : GivenOnce occurrences)
    {option : ValueOption} (hoption : option ≠ .excludeTags) :
    (values option occurrences).length ≤ 1 := by
  rw [length_values]
  exact honce (.value option) fun h ↦ hoption (CommandOption.value.inj h)

theorem GivenOnce.of_perm {occurrences others : List Occurrence} (honce : GivenOnce occurrences)
    (hperm : others.Perm occurrences) : GivenOnce others := fun option hoption ↦ by
  rw [(hperm.map _).count_eq]
  exact honce option hoption

/-- The values of an option that is given at most once do not depend on the order. -/
theorem GivenOnce.values_eq {occurrences others : List Occurrence} (honce : GivenOnce occurrences)
    (hperm : others.Perm occurrences) {option : ValueOption} (hoption : option ≠ .excludeTags) :
    values option others = values option occurrences := by
  have hvalues : (values option others).Perm (values option occurrences) := hperm.filterMap _
  have hlength := honce.length_values_le hoption
  cases hsame : values option occurrences with
  | nil =>
    rw [hsame] at hvalues
    exact hvalues.eq_nil
  | cons first rest =>
    rw [hsame, List.length_cons] at hlength
    obtain rfl : rest = [] := List.length_eq_zero_iff.mp (by omega)
    rw [hsame] at hvalues
    exact List.perm_singleton.mp hvalues

end Occurrence

namespace Draft

open Occurrence

/-- The draft that has the values of the occurrences. -/
def asked (occurrences : List Occurrence) : Draft where
  input := (values .input occurrences).head?
  output := (values .output occurrences).head?
  excludeTags := values .excludeTags occurrences
  typePrefix := (values .typePrefix occurrences).head?
  functionPrefix := (values .functionPrefix occurrences).head?
  procs := decide (.procs ∈ occurrences)

theorem put_asked {occurrences : List Occurrence} {occurrence : Occurrence}
    (honce : GivenOnce (occurrences ++ [occurrence]))
    (hvalue : ∀ option, occurrence ≠ .value option "") :
    (asked occurrences).put occurrence = .ok (asked (occurrences ++ [occurrence])) := by
  cases occurrence with
  | value option v =>
    have hsome : v ≠ "" := fun h ↦ hvalue option (by rw [h])
    have hnew (hoption : option ≠ .excludeTags) : values option occurrences = [] := by
      have hlength := honce.length_values_le hoption
      rw [values_concat] at hlength
      simpa [valueOf?] using hlength
    cases option with
    | excludeTags => simp [put, setValue, asked, values_concat, valueOf?]
    | _ => simp [put, setValue, once, asked, values_concat, valueOf?, hnew, hsome]
  | procs =>
    have hnew : .procs ∉ occurrences := by
      intro hmem
      have hcount := honce (.flag .procs) (by decide)
      rw [List.map_append, List.count_append] at hcount
      have hone : 0 < (occurrences.map Occurrence.option).count (.flag .procs) :=
        List.count_pos_iff.mpr (List.mem_map.mpr ⟨.procs, hmem, rfl⟩)
      have hlast : ([Occurrence.procs].map Occurrence.option).count (.flag .procs) = 1 := rfl
      omega
    simp [put, asked, values_concat, valueOf?, hnew]

theorem foldlM_put_asked {occurrences : List Occurrence} (honce : GivenOnce occurrences)
    (hvalues : ∀ option, .value option "" ∉ occurrences) :
    occurrences.foldlM put {} = .ok (asked occurrences) := by
  induction occurrences using List.reverseRecOn with
  | nil => rfl
  | append_singleton occurrences occurrence ih =>
    have hfront : GivenOnce occurrences := fun option hoption ↦
      (((List.sublist_append_left occurrences [occurrence]).map _).count_le option).trans
        (honce option hoption)
    rw [List.foldlM_append, ih hfront fun option h ↦ hvalues option (List.mem_append_left _ h)]
    change [occurrence].foldlM put (asked occurrences) = _
    rw [List.foldlM_cons, put_asked honce fun option h ↦ hvalues option (by simp [h])]
    rfl

end Draft

namespace Request

open Occurrence

/-- Whatever the order of the occurrences, the arguments are read as a request for them in
that order. -/
theorem ofArguments_of_forall₂ {occurrences : List Occurrence} {pieces : List (List String)}
    (hspells : List.Forall₂ Spells occurrences pieces) (honce : GivenOnce occurrences)
    (hvalues : ∀ option, .value option "" ∉ occurrences) :
    ofArguments pieces.flatten = .ok (asked occurrences) := by
  have hstart : Draft.Becomes {} {} := ⟨rfl, rfl, rfl, rfl⟩
  obtain ⟨final, hfinal, hbecomes⟩ := Draft.foldlM_add_of_forall₂ hspells hstart hvalues
    (Draft.foldlM_put_asked honce hvalues)
  rw [ofArguments, hfinal]
  change final.finish = _
  rw [Draft.finish, hbecomes.settle]
  rfl

/-- The order of the occurrences changes nothing but the order of the lists of tags. -/
theorem asked_of_perm {occurrences others : List Occurrence} (honce : GivenOnce occurrences)
    (hperm : others.Perm occurrences) : asked others =
      { asked occurrences with excludeTags := values .excludeTags others } := by
  simp [asked, honce.values_eq hperm, hperm.mem_iff]

theorem settings_congr_tags (request : Request) {tags : List String}
    (h : Exclusion.ofLists tags = .ofLists request.excludeTags) :
    { request with excludeTags := tags }.settings = request.settings := by
  simp [settings, h]

/-- All command lines for the same occurrences of options, in any order and spelling, are
accepted, and they ask for the same input, output and settings. -/
theorem any_spelling_accepted {occurrences : List Occurrence} (honce : GivenOnce occurrences)
    (hvalues : ∀ option value, .value option value ∈ occurrences → value ≠ "")
    {arguments : List String} (hspelled : SpelledBy occurrences arguments) :
    ∃ request, ofArguments arguments = .ok request ∧
      request.input = (asked occurrences).input ∧
      request.output = (asked occurrences).output ∧
      request.settings = (asked occurrences).settings := by
  obtain ⟨ordered, pieces, hperm, hpieces, rfl⟩ := hspelled
  refine ⟨asked ordered, ofArguments_of_forall₂ hpieces (honce.of_perm hperm) ?_, ?_⟩
  · intro option hmem
    exact hvalues option "" (hperm.mem_iff.mp hmem) rfl
  · rw [asked_of_perm honce hperm]
    refine ⟨rfl, rfl, settings_congr_tags _ (Exclusion.ofLists_eq_of_mem_iff fun list ↦ ?_)⟩
    exact (hperm.filterMap _).mem_iff

/-- Two lists of tags, a hyphen as a file name and a tag that begins with one. -/
def shuffled : List Occurrence :=
  [.value .output "-", .value .excludeTags "-a, b", .procs, .value .excludeTags "c",
    .value .typePrefix "Gfx"]

theorem shuffled_accepted : ∃ request,
    ofArguments ["-xc", "--type-prefix", "Gfx", "--procs", "--exclude-tags=-a, b", "-o", "-"] =
        .ok request ∧
      request.output = some "-" ∧ request.settings = (asked shuffled).settings := by
  have honce : GivenOnce shuffled := by
    have hcount : ∀ option, (shuffled.map Occurrence.option).count option ≤ 1 ∨
        option = .value .excludeTags := by
      rintro (option | option) <;> cases option <;> decide
    exact fun option hoption ↦ (hcount option).resolve_right hoption
  have hvalues : ∀ option value, .value option value ∈ shuffled → value ≠ "" := by
    rintro option value hmem rfl
    cases option <;> revert hmem <;> decide
  have hspelled : SpelledBy shuffled
      ["-xc", "--type-prefix", "Gfx", "--procs", "--exclude-tags=-a, b", "-o", "-"] := by
    refine ⟨[.value .excludeTags "c", .value .typePrefix "Gfx", .procs,
      .value .excludeTags "-a, b", .value .output "-"], _, by decide,
      .cons (.shortAttached rfl (by decide)) (.cons (.long _ (.inl (by decide)))
        (.cons .procs (.cons (.longEquals _ _) (.cons (.short rfl (.inr rfl)) .nil)))), ?_⟩
    decide
  obtain ⟨request, hrequest, -, houtput, hsettings⟩ :=
    any_spelling_accepted honce hvalues hspelled
  exact ⟨request, hrequest, houtput, hsettings⟩

end Request

end ApiHeader
