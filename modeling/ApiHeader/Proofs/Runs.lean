import ApiHeader.Proofs.Files
import ApiHeader.Proofs.Success

/-!
# A run does all or nothing

A run first reads the description, which changes nothing, and then has its header or
fails (`run_ready`). The header is delivered completely or not at all
(`Host.Orderly.deliver_cases`). The description is read by another way than
`headerOfText` reads it, with the same result up to how a failure of the text itself is
told (`result_headerOfFile`). Together they are `run_all_or_nothing`, on every host that
is orderly.
-/

set_option autoImplicit false
set_option relaxedAutoImplicit false

namespace ApiHeader

/-! ### Two ways to read a description -/

/-- The failure without the schema around what is wrong with the text itself. -/
def HeaderError.unwrapped : HeaderError → HeaderError
  | .schema (.document e) => .document e
  | e => e

theorem Schema.unwrapped_of_ofDocument {document : Document} {typePrefix : String}
    {e : SchemaError} (h : ofDocument document typePrefix = .error e) :
    (HeaderError.schema e).unwrapped = .schema e := by
  rw [ofDocument] at h
  split at h
  · obtain rfl := Except.error.inj h
    rfl
  · split at h
    · cases h
    · obtain rfl := Except.error.inj h
      rfl

theorem Schema.unwrapped_of_headerText {document : Document} {typePrefix : String}
    {schema : Schema} {settings : Settings} {e : HeaderError}
    (hload : ofDocument document typePrefix = .ok schema)
    (h : (schema.headerText settings).result = .error e) : e.unwrapped = e := by
  rcases (checks_headerText hload settings).genuine e h with
    ⟨type, context, -, -, rfl⟩ | ⟨path, -, rfl⟩
  · rfl
  · rfl

/-- A description in a file has the header of its text. -/
theorem result_headerOfFile (text : String) (settings : Settings) :
    (headerOfFile (.ok text) settings).result =
      (headerOfText text settings).result.mapError HeaderError.unwrapped := by
  rw [headerOfFile, headerOfText, Schema.read]
  cases Document.read text with
  | error e => rfl
  | ok document =>
    cases hload : Schema.ofDocument document settings.typePrefix with
    | error e =>
      simp only [hload, Logged.result_lift]
      exact congrArg Except.error (Schema.unwrapped_of_ofDocument hload).symm
    | ok schema =>
      simp only [hload]
      cases hresult : (schema.headerText settings).result with
      | error e => exact congrArg Except.error (Schema.unwrapped_of_headerText hload hresult).symm
      | ok header => rfl

/-- Only a description that can be read has a header. -/
theorem result_headerOfFile_eq_ok_iff {contents : Except FileFailure String}
    {settings : Settings} {header : String} :
    (headerOfFile contents settings).result = .ok header ↔
      ∃ text, contents = .ok text ∧ (headerOfText text settings).result = .ok header := by
  cases contents with
  | error failure =>
    refine iff_of_false ?_ (by simp)
    intro h
    cases h
  | ok text =>
    rw [result_headerOfFile]
    cases hresult : (headerOfText text settings).result <;> simp [Except.mapError, hresult]

/-! ### What a run leaves behind -/

namespace Request

variable {σ Draft Place : Type} {host : Host Draft (StateM σ)} {view : View σ Draft Place}
  {before : σ} {request : Request} {header : String}

/-- Once the description is read and its events are reported, nothing has changed. -/
theorem run_ready (horderly : host.Orderly view) (request : Request) (before : σ) :
    ∃ ready, view.Same before ready ∧ (request.run host).run before =
      match (headerOfFile (view.read before request.input) request.settings).result with
      | .error e => (.error e, ready)
      | .ok text =>
        (((host.deliver request.output text).run ready).1.mapError .unwritable,
          ((host.deliver request.output text).run ready).2) := by
  have hfirst := horderly.report (.reading request.input) before
  have hread := horderly.read request.input ((host.report (.reading request.input)).run before).2
  have hcontents := horderly.reads request.input
    ((host.report (.reading request.input)).run before).2
  rw [hfirst.reads] at hcontents
  have hevents := horderly.report_all
    (headerOfFile (view.read before request.input) request.settings).events
    ((host.read request.input).run ((host.report (.reading request.input)).run before).2).2
  refine ⟨_, (hfirst.trans hread).trans hevents, ?_⟩
  simp only [run, Host.run_bind, hcontents]
  cases (headerOfFile (view.read before request.input) request.settings).result <;> rfl

theorem run_of_error (horderly : host.Orderly view) {e : HeaderError}
    (h : (headerOfFile (view.read before request.input) request.settings).result = .error e) :
    ∃ after, (request.run host).run before = (.error e, after) ∧ view.Keeps before after := by
  obtain ⟨ready, hsame, hrun⟩ := run_ready horderly request before
  rw [h] at hrun
  exact ⟨ready, hrun, hsame.toKeeps⟩

theorem run_of_ok (horderly : host.Orderly view)
    (h : (headerOfFile (view.read before request.input) request.settings).result = .ok header) :
    (∃ path failure ready after, request.output = some path ∧
      (request.run host).run before = (.error (.unwritable failure), after) ∧
      view.Same before ready ∧ host.Refuses path header failure ready ∧
      view.Keeps before after) ∨
    ∃ after, (request.run host).run before = (.ok (), after) ∧
      view.Delivers request.output header before after := by
  obtain ⟨ready, hsame, hrun⟩ := run_ready horderly request before
  rw [h] at hrun
  obtain ⟨path, failure, after, houtput, hdeliver, hrefuses, hkeeps⟩ | ⟨after, hdeliver, hdone⟩ :=
    horderly.deliver_cases request.output header ready
  · simp only [hdeliver] at hrun
    exact .inl ⟨path, failure, ready, after, houtput, hrun, hsame, hrefuses,
      hsame.toKeeps.trans hkeeps⟩
  · simp only [hdeliver] at hrun
    exact .inr ⟨after, hrun, hsame.toKeeps.delivers hdone⟩

/-- A run fails and keeps everything, or has a header and delivers it. -/
theorem run_cases (horderly : host.Orderly view) (request : Request) (before : σ) :
    (∃ e after, (request.run host).run before = (.error e, after) ∧ view.Keeps before after) ∨
    ∃ header after, (request.run host).run before = (.ok (), after) ∧
      (headerOfFile (view.read before request.input) request.settings).result = .ok header ∧
      view.Delivers request.output header before after := by
  cases hheader : (headerOfFile (view.read before request.input) request.settings).result with
  | error e => exact .inl ⟨e, run_of_error horderly hheader⟩
  | ok header =>
    obtain ⟨_, failure, _, after, _, hrun, _, _, hkeeps⟩ | ⟨after, hrun, hdone⟩ :=
      run_of_ok horderly hheader
    · exact .inl ⟨.unwritable failure, after, hrun, hkeeps⟩
    · exact .inr ⟨header, after, hrun, rfl, hdone⟩

/-- On every orderly host, a run that fails changes no file and prints nothing. One that
succeeds has read a text that has a header, and leaves behind that header and nothing
else. When the text cannot be read or has no header the run tells why, and when it has
one the run fails only where the host does not write it. -/
theorem run_all_or_nothing (horderly : host.Orderly view) (request : Request) (before : σ) :
    (∀ e after, (request.run host).run before = (.error e, after) → view.Keeps before after) ∧
    (∀ after, (request.run host).run before = (.ok (), after) → ∃ text header,
      view.read before request.input = .ok text ∧
        view.Holds before request.input text.toUTF8 ∧
        (headerOfText text request.settings).result = .ok header ∧
        view.Delivers request.output header before after) ∧
    (∀ failure, view.read before request.input = .error failure →
      ((request.run host).run before).1 = .error (.document (.unreadable failure))) ∧
    ∀ text, view.read before request.input = .ok text →
      (∀ e, (headerOfText text request.settings).result = .error e →
        ((request.run host).run before).1 = .error e.unwrapped) ∧
      ∀ header, (headerOfText text request.settings).result = .ok header →
        ((request.run host).run before).1 = .ok () ∨
          ∃ path failure ready, request.output = some path ∧ view.Same before ready ∧
            host.Refuses path header failure ready ∧
            ((request.run host).run before).1 = .error (.unwritable failure) := by
  refine ⟨fun e after hfailed ↦ ?_, fun after hok ↦ ?_, fun failure hread ↦ ?_,
    fun text hread ↦ ⟨fun e herror ↦ ?_, fun header hheader ↦ ?_⟩⟩
  · obtain ⟨_, left, hrun, hkeeps⟩ | ⟨_, left, hrun, _⟩ := run_cases horderly request before
    · obtain ⟨-, rfl⟩ := Prod.mk.inj (hrun.symm.trans hfailed)
      exact hkeeps
    · cases hrun.symm.trans hfailed
  · obtain ⟨_, left, hrun, _⟩ | ⟨header, left, hrun, hheader, hdone⟩ :=
      run_cases horderly request before
    · cases hrun.symm.trans hok
    · obtain ⟨-, rfl⟩ := Prod.mk.inj (hrun.symm.trans hok)
      obtain ⟨text, hread, htext⟩ := result_headerOfFile_eq_ok_iff.mp hheader
      exact ⟨text, header, hread, horderly.holds _ _ _ hread, htext, hdone⟩
  · have hfailed : (headerOfFile (view.read before request.input) request.settings).result =
        .error (.document (.unreadable failure)) := by
      rw [hread]
      rfl
    obtain ⟨left, hrun, -⟩ := run_of_error horderly hfailed
    rw [hrun]
  · have hfailed : (headerOfFile (view.read before request.input) request.settings).result =
        .error e.unwrapped := by
      rw [hread, result_headerOfFile, herror]
      rfl
    obtain ⟨left, hrun, -⟩ := run_of_error horderly hfailed
    rw [hrun]
  · have hwritten := result_headerOfFile_eq_ok_iff.mpr ⟨text, hread, hheader⟩
    obtain ⟨path, failure, ready, left, houtput, hrun, hsame, hrefuses, -⟩ | ⟨left, hrun, -⟩ :=
      run_of_ok horderly hwritten
    · rw [hrun]
      exact .inr ⟨path, failure, ready, houtput, hsame, hrefuses, rfl⟩
    · rw [hrun]
      exact .inl rfl

/-- The header is written to the file that holds the description, by another name. -/
def overwriting : Request where
  input := "api.json"
  output := some "/work/api.json"
  excludeTags := []
  typePrefix := none
  functionPrefix := none
  procs := false

/-- An empty description, and another file. -/
def described : Session where
  files := .ofList ["work"] [("api.json", .data "\x7b\x7d".toUTF8), ("notes", .data "a".toUTF8)]
  printed := ""
  events := []

/-- The description is read before the header takes its place. -/
theorem overwriting_delivers :
    ∃ header after, (headerOfText "\x7b\x7d" overwriting.settings).result = .ok header ∧
      (overwriting.run Session.host).run described = (.ok (), after) ∧
      Session.view.Holds after "api.json" header.toUTF8 ∧
      Session.view.file? after ["work", "notes"] = some "a".toUTF8 ∧
      after.printed = "" := by
  have hread : described.files.read "api.json" = .ok "\x7b\x7d" := by decide +kernel
  have hok : ((overwriting.run Session.host).run described).1 = .ok () := by decide +kernel
  obtain ⟨text, header, htext, -, hheader, place, hplace, hsets⟩ :=
    (run_all_or_nothing Session.orderly overwriting described).2.1 _ (Prod.ext hok rfl)
  obtain rfl : "\x7b\x7d" = text := Except.ok.inj (hread.symm.trans htext)
  have hnames : ∀ path ∈ ["api.json", "/work/api.json"],
      Session.view.find? ((overwriting.run Session.host).run described).2 path =
        some ["work", "api.json"] := by
    decide +kernel
  obtain rfl : ["work", "api.json"] = place :=
    Option.some.inj ((hnames _ (by simp)).symm.trans hplace)
  refine ⟨header, _, hheader, Prod.ext hok rfl, ⟨_, hnames _ (by simp), hsets.own⟩, ?_,
    hsets.printed⟩
  rw [hsets.others _ (by decide)]
  decide +kernel

end Request

end ApiHeader
