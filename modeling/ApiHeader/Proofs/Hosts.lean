import ApiHeader.Command.Run

/-!
# Hosts that keep their word

Nothing is known of a host but what is assumed of it. A `View` says what can be seen of
its states, and `Host.Orderly` what each operation may do to that: reading and reporting
change nothing, printing succeeds, a draft is made, moved or discarded completely, and
what fails leaves nothing behind, except that a draft may be left with a part of a text.
On such a host a text is written completely or not at all (`Host.Orderly.write_cases`),
because a draft that was not moved is discarded.
-/

set_option autoImplicit false
set_option relaxedAutoImplicit false

namespace ApiHeader

variable {σ Draft Place α β : Type}

/-- What can be seen of the states of a host. -/
structure View (σ Draft Place : Type) where
  /-- The bytes of the file at a place. -/
  file? : σ → Place → Option ByteArray
  /-- Where a path leads. -/
  find? : σ → String → Option Place
  /-- What is read from a path. -/
  read : σ → String → Except FileFailure String
  printed : σ → String
  /-- Where the file of a draft stands. -/
  draft : Draft → Place

namespace View

variable {view : View σ Draft Place} {before between after : σ} {place : Place}
  {file other : Option ByteArray}

/-- Every file is as before, no file is new, and nothing is printed. -/
structure Keeps (view : View σ Draft Place) (before after : σ) : Prop where
  files : view.file? after = view.file? before
  printed : view.printed after = view.printed before

/-- All that is seen is as before. -/
structure Same (view : View σ Draft Place) (before after : σ) : Prop
    extends view.Keeps before after where
  paths : view.find? after = view.find? before
  reads : view.read after = view.read before

/-- The file at one place is this one now, and all else is as before. -/
structure Sets (view : View σ Draft Place) (before : σ) (place : Place)
    (file : Option ByteArray) (after : σ) : Prop where
  own : view.file? after place = file
  others : ∀ other, other ≠ place → view.file? after other = view.file? before other
  printed : view.printed after = view.printed before

/-- A path leads to a file with these bytes. -/
def Holds (view : View σ Draft Place) (state : σ) (path : String) (bytes : ByteArray) : Prop :=
  ∃ place, view.find? state path = some place ∧ view.file? state place = some bytes

/-- A draft appears where there was no file. -/
def Creates (view : View σ Draft Place) (before : σ) : Except FileFailure Draft × σ → Prop
  | (.error _, after) => view.Keeps before after
  | (.ok draft, after) => view.file? before (view.draft draft) = none ∧
      view.Sets before (view.draft draft) (some .empty) after

/-- A text is added to a draft. After a failure the draft may hold anything. -/
def Appends (view : View σ Draft Place) (draft : Draft) (text : String) (before : σ) :
    Except FileFailure Unit × σ → Prop
  | (.error _, after) => ∃ file, view.Sets before (view.draft draft) file after
  | (.ok (), after) => ∀ bytes, view.file? before (view.draft draft) = some bytes →
      view.Sets before (view.draft draft) (some (bytes ++ text.toUTF8)) after

/-- The file of a draft goes where the path leads, and from where it was. -/
def Moves (view : View σ Draft Place) (draft : Draft) (path : String) (before : σ) :
    Except FileFailure Unit × σ → Prop
  | (.error _, after) => view.Keeps before after
  | (.ok (), after) => ∃ place, view.find? after path = some place ∧
      view.file? after place = view.file? before (view.draft draft) ∧
      (view.draft draft ≠ place → view.file? after (view.draft draft) = none) ∧
      (∀ other, other ≠ place → other ≠ view.draft draft →
        view.file? after other = view.file? before other) ∧
      view.printed after = view.printed before

/-- The header is all that is left behind: it is printed, or it is the file at the path
of the output. -/
def Delivers (view : View σ Draft Place) (output : Option String) (header : String)
    (before after : σ) : Prop :=
  match output with
  | none => view.file? after = view.file? before ∧
      view.printed after = view.printed before ++ header
  | some path => ∃ place, view.find? after path = some place ∧
      view.Sets before place (some header.toUTF8) after

theorem Keeps.trans (h : view.Keeps before between) (h' : view.Keeps between after) :
    view.Keeps before after :=
  ⟨h'.files.trans h.files, h'.printed.trans h.printed⟩

theorem Same.refl (view : View σ Draft Place) (state : σ) : view.Same state state :=
  ⟨⟨rfl, rfl⟩, rfl, rfl⟩

theorem Same.trans (h : view.Same before between) (h' : view.Same between after) :
    view.Same before after :=
  ⟨h.toKeeps.trans h'.toKeeps, h'.paths.trans h.paths, h'.reads.trans h.reads⟩

theorem Sets.trans (h : view.Sets before place other between)
    (h' : view.Sets between place file after) : view.Sets before place file after where
  own := h'.own
  others _ hne := (h'.others _ hne).trans (h.others _ hne)
  printed := h'.printed.trans h.printed

theorem Sets.trans_keeps (h : view.Sets before place file between)
    (h' : view.Keeps between after) : view.Sets before place file after where
  own := (congrFun h'.files place).trans h.own
  others _ hne := (congrFun h'.files _).trans (h.others _ hne)
  printed := h'.printed.trans h.printed

theorem Keeps.trans_sets (h : view.Keeps before between)
    (h' : view.Sets between place file after) : view.Sets before place file after where
  own := h'.own
  others _ hne := (h'.others _ hne).trans (congrFun h.files _)
  printed := h'.printed.trans h.printed

/-- A place that holds what it held before makes no difference. -/
theorem Sets.keeps (h : view.Sets before place file after)
    (hplace : view.file? before place = file) : view.Keeps before after := by
  refine ⟨funext fun other ↦ ?_, h.printed⟩
  by_cases hother : other = place
  · rw [hother, h.own, hplace]
  · exact h.others other hother

theorem Keeps.delivers {output : Option String} {header : String}
    (h : view.Keeps before between) (h' : view.Delivers output header between after) :
    view.Delivers output header before after := by
  cases output with
  | none => exact ⟨h'.1.trans h.files, h'.2.trans (congrArg (· ++ header) h.printed)⟩
  | some path =>
    obtain ⟨place, hpath, hsets⟩ := h'
    exact ⟨place, hpath, h.trans_sets hsets⟩

end View

namespace Host

variable {host : Host Draft (StateM σ)} {view : View σ Draft Place} {before : σ}
  {path : String}

/-- What is assumed of a host: reading and reporting change nothing, drafts are made,
moved and discarded completely, what fails leaves no trace but in a draft, and printing
succeeds. -/
structure Orderly (host : Host Draft (StateM σ)) (view : View σ Draft Place) : Prop where
  report : ∀ event before, view.Same before ((host.report event).run before).2
  read : ∀ path before, view.Same before ((host.read path).run before).2
  reads : ∀ path before, ((host.read path).run before).1 = view.read before path
  holds : ∀ path text state, view.read state path = .ok text →
    view.Holds state path text.toUTF8
  create : ∀ directory before, view.Creates before ((host.create directory).run before)
  append : ∀ draft text before,
    view.Appends draft text before ((host.append draft text).run before)
  move : ∀ draft path before, view.Moves draft path before ((host.move draft path).run before)
  discard : ∀ draft before,
    view.Sets before (view.draft draft) none ((host.discard draft).run before).2
  prints : ∀ text before, ((host.print text).run before).1 = .ok ()
  print : ∀ text before, view.Delivers none text before ((host.print text).run before).2

/-- A text is not written if its draft cannot be made, completed or moved. -/
inductive Refuses (host : Host Draft (StateM σ)) (path text : String) (failure : FileFailure)
    (state : σ) : Prop where
  | create {after : σ}
      (h : (host.create (Path.directory path)).run state = (.error failure, after))
  | append {draft : Draft} {created after : σ}
      (hcreate : (host.create (Path.directory path)).run state = (.ok draft, created))
      (h : (host.append draft text).run created = (.error failure, after))
  | move {draft : Draft} {created filled after : σ}
      (hcreate : (host.create (Path.directory path)).run state = (.ok draft, created))
      (happend : (host.append draft text).run created = (.ok (), filled))
      (h : (host.move draft path).run filled = (.error failure, after))

/-! ### Results and states as pairs -/

theorem run_bind (x : StateM σ α) (f : α → StateM σ β) (before : σ) :
    (x >>= f).run before = (f (x.run before).1).run (x.run before).2 := rfl

theorem run_modifyGet (f : σ → α × σ) (before : σ) :
    (modifyGet f : StateM σ α).run before = f before := rfl

theorem run_pure (a : α) (before : σ) : (pure a : StateM σ α).run before = (a, before) := rfl

/-! ### All or nothing -/

namespace Orderly

theorem report_all (horderly : host.Orderly view) (events : List Event) (before : σ) :
    view.Same before ((events.forM host.report).run before).2 := by
  induction events generalizing before with
  | nil => exact .refl view before
  | cons event events ih =>
    rw [List.forM_eq_forM, List.forM_cons, run_bind]
    exact (horderly.report event before).trans (ih _)

/-- A draft that was made is moved as a whole, or changes in its own place only. -/
theorem finish_cases (horderly : host.Orderly view) (text : String) {draft : Draft} {created : σ}
    (hcreate : (host.create (Path.directory path)).run before = (.ok draft, created))
    (hempty : view.file? created (view.draft draft) = some .empty) :
    (∃ failure after, (host.finish draft path text).run created = (.error failure, after) ∧
      host.Refuses path text failure before ∧
      ∃ file, view.Sets created (view.draft draft) file after) ∨
    ∃ filled after, (host.finish draft path text).run created = (.ok (), after) ∧
      view.Sets created (view.draft draft) (some text.toUTF8) filled ∧
      view.Moves draft path filled (.ok (), after) := by
  have happends := horderly.append draft text created
  cases happend : (host.append draft text).run created with
  | mk result filled =>
  rw [happend] at happends
  cases result with
  | error failure =>
    refine .inl ⟨failure, filled, ?_, .append hcreate happend, happends⟩
    simp only [finish, run_bind, happend, run_pure]
  | ok _ =>
    have hfilled := happends .empty hempty
    rw [ByteArray.empty_append] at hfilled
    have hmoves := horderly.move draft path filled
    cases hmove : (host.move draft path).run filled with
    | mk result after =>
    rw [hmove] at hmoves
    have hfinish : (host.finish draft path text).run created = (result, after) := by
      simp only [finish, run_bind, happend, hmove]
    cases result with
    | error failure =>
      exact .inl ⟨failure, after, hfinish, .move hcreate happend hmove, _,
        hfilled.trans_keeps hmoves⟩
    | ok _ => exact .inr ⟨filled, after, hfinish, hfilled, hmoves⟩

/-- A text is written completely, or nothing is. -/
theorem write_cases (horderly : host.Orderly view) (path text : String) (before : σ) :
    (∃ failure after, (host.write path text).run before = (.error failure, after) ∧
      host.Refuses path text failure before ∧ view.Keeps before after) ∨
    ∃ after, (host.write path text).run before = (.ok (), after) ∧
      view.Delivers (some path) text before after := by
  have hcreates := horderly.create (Path.directory path) before
  cases hcreate : (host.create (Path.directory path)).run before with
  | mk result created =>
  rw [hcreate] at hcreates
  cases result with
  | error failure =>
    refine .inl ⟨failure, created, ?_, .create hcreate, hcreates⟩
    simp only [write, run_bind, hcreate, run_pure]
  | ok draft =>
    obtain ⟨hnew, hempty⟩ := hcreates
    obtain ⟨failure, finished, hfinish, hrefuses, file, hleft⟩ |
        ⟨filled, finished, hfinish, hfilled, place, hpath, hplace, hmoved, hothers, hprinted⟩ :=
      horderly.finish_cases text hcreate hempty.own
    · -- Whatever the draft holds, it goes.
      have hgone := horderly.discard draft finished
      refine .inl ⟨failure, _, ?_, hrefuses, ((hempty.trans hleft).trans hgone).keeps hnew⟩
      simp only [write, run_bind, hcreate, hfinish, run_pure]
    · have hwritten := hempty.trans hfilled
      have hsets : view.Sets before place (some text.toUTF8) finished := by
        refine ⟨hplace.trans hwritten.own, fun other hother ↦ ?_,
          hprinted.trans hwritten.printed⟩
        by_cases hdraft : other = view.draft draft
        · -- The draft had a place of its own, where there was nothing before.
          subst hdraft
          rw [hmoved hother, hnew]
        · rw [hothers other hother hdraft, hwritten.others other hdraft]
      have hreport := horderly.report (.wrote text.utf8ByteSize path) finished
      refine .inr ⟨_, ?_, place, (congrFun hreport.paths path).trans hpath,
        hsets.trans_keeps hreport.toKeeps⟩
      simp only [write, run_bind, hcreate, hfinish, run_pure]

theorem deliver_cases (horderly : host.Orderly view) (output : Option String) (text : String)
    (before : σ) :
    (∃ path failure after, output = some path ∧
      (host.deliver output text).run before = (.error failure, after) ∧
      host.Refuses path text failure before ∧ view.Keeps before after) ∨
    ∃ after, (host.deliver output text).run before = (.ok (), after) ∧
      view.Delivers output text before after := by
  cases output with
  | none =>
    exact .inr ⟨_, Prod.ext (horderly.prints text before) rfl, horderly.print text before⟩
  | some path =>
    obtain ⟨failure, after, hwrite⟩ | hwrite := horderly.write_cases path text before
    · exact .inl ⟨path, failure, after, rfl, hwrite⟩
    · exact .inr hwrite

end Orderly

end Host

end ApiHeader
