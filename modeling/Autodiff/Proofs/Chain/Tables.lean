import Mathlib.Data.List.Induction
import Autodiff.Proofs.Chain.Streams

set_option autoImplicit false

namespace Autodiff

variable {F : Type}

inductive Side where
  | sample | diagnostic
deriving DecidableEq

/-- What a column holds. Numbers of the kernel, parameters and gradient entries are counted from
zero. -/
inductive Column where
  | logDensity
  | acceptance
  | own (i : ℕ)
  | param (i : ℕ)
  | gradient (i : ℕ)

namespace Column

def name? (own params : List String) : Column → Option String
  | .logDensity => some "lp__"
  | .acceptance => some "accept_stat__"
  | .own i => own[i]?
  | .param i => params[i]?
  | .gradient i => (params[i]?).map ("g_" ++ ·)

def value? (state : ChainState F) (report : KernelReport F) : Column → Option F
  | .logDensity => some state.logDensity
  | .acceptance => some state.acceptance
  | .own i => report.params[i]?
  | .param i => state.params[i]?
  | .gradient i => (report.gradient.getD [])[i]?

def ofSample (own params : ℕ) : List Column :=
  [.logDensity, .acceptance] ++ (List.range own).map .own ++ (List.range params).map .param

theorem map_range_getElem? {α : Type} (xs : List α) :
    (List.range xs.length).map (xs[·]?) = xs.map some := by
  refine List.ext_getElem (by simp) fun i hi hi' => ?_
  simp only [List.length_map, List.length_range] at hi
  simp [hi]

theorem map_name?_ofSample (report : KernelReport F) (params : List String) :
    (ofSample report.names.length params.length).map (name? report.names params) =
      (Streams.sampleHeader report params).map some := by
  have hown := map_range_getElem? report.names
  have hparams := map_range_getElem? params
  simp only [ofSample, Streams.sampleHeader, Streams.fixedColumns, List.map_append, List.map_map,
    Function.comp_def, name?, hown, hparams]
  rfl

theorem map_value?_ofSample (state : ChainState F) (report : KernelReport F) :
    (ofSample report.params.length state.params.length).map (value? state report) =
      (Streams.sampleRow state report).map some := by
  have hown := map_range_getElem? report.params
  have hparams := map_range_getElem? state.params
  simp only [ofSample, Streams.sampleRow, List.map_append, List.map_map, Function.comp_def, value?,
    hown, hparams]
  rfl

end Column

namespace Side

def names (report : KernelReport F) (params : List String) : Side → List String
  | .sample => Streams.sampleHeader report params
  | .diagnostic => Streams.diagnosticHeader report params

def row (state : ChainState F) (report : KernelReport F) : Side → List F
  | .sample => Streams.sampleRow state report
  | .diagnostic => Streams.diagnosticRow state report

/-- The columns of a stream. Those of the gradient come last and only in the diagnostics. -/
def columns (report : KernelReport F) (params : List String) : Side → List Column
  | .sample => Column.ofSample report.names.length params.length
  | .diagnostic =>
    Column.ofSample report.names.length params.length ++
      if report.withGradient then (List.range params.length).map .gradient else []

/-- The state and the second report have as many numbers as the first report and the parameters
have names. A gradient counts in the diagnostics only. -/
structure Matches (report : KernelReport F) (names : List String) (state : ChainState F)
    (report' : KernelReport F) (side : Side) : Prop where
  own : report'.params.length = report.names.length
  params : state.params.length = names.length
  gradient : side = .diagnostic →
    report'.gradient.map List.length = if report.withGradient then some names.length else none

theorem map_name? (report : KernelReport F) (params : List String) (side : Side) :
    (side.columns report params).map (Column.name? report.names params) =
      (side.names report params).map some := by
  have hsample := Column.map_name?_ofSample report params
  cases side with
  | sample => exact hsample
  | diagnostic =>
    have hparams := Column.map_range_getElem? params
    cases hgradient : report.withGradient with
    | false => simp [columns, names, Streams.diagnosticHeader, hgradient, hsample]
    | true =>
      have hmap : (List.range params.length).map (fun i => (params[i]?).map ("g_" ++ ·)) =
          (params.map ("g_" ++ ·)).map some := by
        have hcomp := congrArg (List.map (Option.map ("g_" ++ ·))) hparams
        simpa [List.map_map, Function.comp_def] using hcomp
      simp only [columns, names, Streams.diagnosticHeader, hgradient, if_true, List.map_append,
        hsample, List.map_map, Function.comp_def, Column.name?]
      rw [hmap, List.map_map]
      rfl

theorem map_value? {report report' : KernelReport F} {params : List String} {state : ChainState F}
    {side : Side} (h : side.Matches report params state report') :
    (side.columns report params).map (Column.value? state report') =
      (side.row state report').map some := by
  have hsample := Column.map_value?_ofSample state report'
  rw [h.own, h.params] at hsample
  cases side with
  | sample => exact hsample
  | diagnostic =>
    have hgradient := h.gradient rfl
    cases hwith : report.withGradient with
    | false =>
      have hnone : report'.gradient = none := by simpa [hwith] using hgradient
      simp [columns, row, Streams.diagnosticRow, hwith, hnone, hsample]
    | true =>
      rw [hwith, if_pos rfl, Option.map_eq_some_iff] at hgradient
      obtain ⟨gradient, hsome, hlength⟩ := hgradient
      have hrange := Column.map_range_getElem? gradient
      rw [hlength] at hrange
      simp only [columns, row, Streams.diagnosticRow, hwith, if_true, List.map_append, hsample,
        List.map_map, Function.comp_def, Column.value?, hsome, Option.getD_some, hrange]

theorem names_ne_nil (report : KernelReport F) (params : List String) (side : Side) :
    side.names report params ≠ [] := by
  cases side <;> simp [names, Streams.diagnosticHeader, Streams.sampleHeader, Streams.fixedColumns]

theorem length_row {report report' : KernelReport F} {params : List String} {state : ChainState F}
    {side : Side} (h : side.Matches report params state report') :
    (side.row state report').length = (side.names report params).length := by
  have hnames := congrArg List.length (side.map_name? report params)
  have hrow := congrArg List.length (map_value? h)
  simp only [List.length_map] at hnames hrow
  omega

end Side

inductive StreamCall (F : Type) where
  | header (side : Side) (report : KernelReport F) (params : List String)
  | row (side : Side) (state : ChainState F) (report : KernelReport F)

abbrev Tables (F : Type) := Streams (Table F) (Table F)

namespace Tables

def side (s : Tables F) : Side → Stream (Table F)
  | .sample => s.sample
  | .diagnostic => s.diagnostic

def setSide (s : Tables F) (t : Stream (Table F)) : Side → Tables F
  | .sample => { s with sample := t }
  | .diagnostic => { s with diagnostic := t }

@[simp]
theorem side_setSide (s : Tables F) (t : Stream (Table F)) (side : Side) :
    Tables.side (s.setSide t side) side = t := by
  cases side <;> rfl

@[simp]
theorem setSide_side (s : Tables F) (side : Side) : s.setSide (Tables.side s side) side = s := by
  cases side <;> rfl

theorem side_setSide_ne (s : Tables F) (t : Stream (Table F)) {side other : Side}
    (h : other ≠ side) : Tables.side (s.setSide t side) other = s.side other := by
  cases side <;> cases other <;> simp_all [Tables.side, setSide]

end Tables

namespace StreamCall

def side : StreamCall F → Side
  | .header side _ _ => side
  | .row side _ _ => side

def op : StreamCall F → String
  | .header .sample _ _ => "write_sample_names"
  | .header .diagnostic _ _ => "write_diagnostic_names"
  | .row .sample _ _ => "write_sample_params"
  | .row .diagnostic _ _ => "write_diagnostic_params"

def width : StreamCall F → ℕ
  | .header side report params => (side.names report params).length
  | .row side state report => (side.row state report).length

def attempt : StreamCall F → Writing F (Tables F) Unit
  | .header .sample report params => Streams.writeSampleHeader report params
  | .header .diagnostic report params => Streams.writeDiagnosticHeader report params
  | .row .sample state report => Streams.writeSampleRow state report
  | .row .diagnostic state report => Streams.writeDiagnosticRow state report

def write : StreamCall F → Stream (Table F) → Stream (Table F)
  | .header side report params, t => t.headed (side.names report params)
  | .row side state report, t => t.extended (side.row state report)

def serve (call : StreamCall F) : Writing F (Stream (Table F)) Unit :=
  match call with
  | .header side report params => Stream.writeHeader call.op (side.names report params)
  | .row side state report => Stream.writeRow call.op (side.row state report)

theorem attempt_eq (call : StreamCall F) (s : Tables F) :
    call.attempt s = ((call.serve (s.side call.side)).1,
      s.setSide (call.serve (s.side call.side)).2 call.side) := by
  cases call with
  | header side report params => cases side <;> rfl
  | row side state report => cases side <;> rfl

theorem attempt_fits {call : StreamCall F} {s : Tables F} (h : (s.side call.side).Fits call.width) :
    call.attempt s = (.ok (), s.setSide (call.write (s.side call.side)) call.side) := by
  have hserve : call.serve (s.side call.side) = (.ok (), call.write (s.side call.side)) := by
    cases call with
    | header side report params => exact Stream.writeHeader_fits h
    | row side state report => exact Stream.writeRow_fits h
  rw [attempt_eq, hserve]

theorem attempt_bound {call : StreamCall F} {s : Tables F} {width : ℕ}
    (h : (s.side call.side).width = some width) (hne : width ≠ call.width) :
    call.attempt s =
      (.error (.sizeMismatch call.op "row width" call.width "bound columns" width), s) := by
  have hserve : call.serve (s.side call.side) =
      (.error (.sizeMismatch call.op "row width" call.width "bound columns" width),
        s.side call.side) := by
    cases call with
    | header side report params => exact Stream.writeHeader_bound h hne
    | row side state report => exact Stream.writeRow_bound h hne
  rw [attempt_eq, hserve, Tables.setSide_side]

theorem fits_of_attempt {call : StreamCall F} {s : Tables F} (h : (call.attempt s).1 = .ok ()) :
    (s.side call.side).Fits call.width := by
  rcases (s.side call.side).fits_or_bound call.width with hfits | ⟨width, hwidth, hne⟩
  · exact hfits
  · rw [attempt_bound hwidth hne] at h
    cases h

end StreamCall

namespace Tables

def next (s : Tables F) (call : StreamCall F) : Tables F := (call.attempt s).2

def after (calls : List (StreamCall F)) : Tables F := calls.foldl next (.ofSinks {} {})

theorem after_concat (calls : List (StreamCall F)) (call : StreamCall F) :
    after (calls ++ [call]) = (after calls).next call := by
  rw [after, List.foldl_append]
  rfl

theorem side_next (s : Tables F) (call : StreamCall F) (side : Side) :
    (s.next call).side side = s.side side ∨
      call.side = side ∧ (s.side side).Fits call.width ∧
        (s.next call).side side = call.write (s.side side) := by
  rcases (s.side call.side).fits_or_bound call.width with hfits | ⟨width, hwidth, hne⟩
  · have hnext : s.next call = s.setSide (call.write (s.side call.side)) call.side := by
      rw [next, StreamCall.attempt_fits hfits]
    by_cases hside : side = call.side
    · subst hside
      exact .inr ⟨rfl, hfits, by rw [hnext, side_setSide]⟩
    · exact .inl (by rw [hnext, side_setSide_ne s _ hside])
  · refine .inl ?_
    rw [next, StreamCall.attempt_bound hwidth hne]

def Accepts (s : Tables F) (call : StreamCall F) : Prop := (call.attempt s).1 = .ok ()

theorem accepts_iff {s : Tables F} {call : StreamCall F} :
    s.Accepts call ↔ (s.side call.side).Fits call.width :=
  ⟨StreamCall.fits_of_attempt, fun h => congrArg Prod.fst (StreamCall.attempt_fits h)⟩

theorem side_next_of_accepts {s : Tables F} {call : StreamCall F} (h : s.Accepts call) :
    (s.next call).side call.side = call.write (s.side call.side) := by
  rw [next, StreamCall.attempt_fits (accepts_iff.mp h)]
  exact side_setSide _ _ _

end Tables

/-- Rows and header have the bound width. -/
structure Stream.Tabular (t : Stream (Table F)) : Prop where
  rows : ∀ row ∈ t.sink.rows, t.width = some row.length
  names : t.sink.names ≠ [] → t.width = some t.sink.names.length

namespace Stream.Tabular

variable {t : Stream (Table F)}

theorem width_write (call : StreamCall F) : (call.write t).width = some call.width := by
  cases call <;> rfl

theorem write (h : t.Tabular) {call : StreamCall F} (hfits : t.Fits call.width) :
    (call.write t).Tabular := by
  have hrows : ∀ row ∈ t.sink.rows, some call.width = some row.length := fun row hrow =>
    congrArg some (hfits _ (h.rows row hrow)).symm
  have hnames : t.sink.names ≠ [] → some call.width = some t.sink.names.length := fun hne =>
    congrArg some (hfits _ (h.names hne)).symm
  cases call with
  | header side report params => exact ⟨hrows, fun _ => rfl⟩
  | row side state report =>
    refine ⟨fun row hrow => ?_, hnames⟩
    rcases List.mem_append.mp hrow with hold | hnew
    · exact hrows row hold
    · obtain rfl := List.mem_singleton.mp hnew
      rfl

end Stream.Tabular

namespace Tables

theorem tabular (calls : List (StreamCall F)) (side : Side) :
    ((after calls).side side).Tabular := by
  induction calls using List.reverseRecOn with
  | nil =>
    cases side <;> exact ⟨fun row hrow => absurd hrow List.not_mem_nil, fun h => absurd rfl h⟩
  | append_singleton calls call ih =>
    rw [after_concat]
    rcases side_next (after calls) call side with hsame | ⟨-, hfits, hwrite⟩
    · rw [hsame]
      exact ih
    · rw [hwrite]
      exact ih.write hfits

theorem width_append {before rest : List (StreamCall F)} {side : Side} {width : ℕ}
    (h : ((after before).side side).width = some width) :
    ((after (before ++ rest)).side side).width = some width := by
  induction rest using List.reverseRecOn with
  | nil => rwa [List.append_nil]
  | append_singleton rest call ih =>
    rw [← List.append_assoc, after_concat]
    rcases side_next (after (before ++ rest)) call side with hsame | ⟨-, hfits, hwrite⟩
    · rw [hsame]
      exact ih
    · rw [hwrite, Stream.Tabular.width_write]
      exact congrArg some (hfits width ih).symm

theorem names_append {before rest : List (StreamCall F)} {side : Side}
    (h : ((after before).side side).sink.names ≠ []) :
    ((after (before ++ rest)).side side).sink.names ≠ [] := by
  induction rest using List.reverseRecOn with
  | nil => rwa [List.append_nil]
  | append_singleton rest call ih =>
    rw [← List.append_assoc, after_concat]
    rcases side_next (after (before ++ rest)) call side with hsame | ⟨-, -, hwrite⟩
    · rw [hsame]
      exact ih
    · rw [hwrite]
      cases call with
      | header side report params => exact side.names_ne_nil report params
      | row => exact ih

structure LastHeader (calls : List (StreamCall F)) (side : Side) (report : KernelReport F)
    (params : List String) (before rest : List (StreamCall F)) : Prop where
  split : calls = before ++ .header side report params :: rest
  accepted : (after before).Accepts (.header side report params)
  last : ∀ mid report' params' rest', rest = mid ++ .header side report' params' :: rest' →
    ¬ (after (before ++ .header side report params :: mid)).Accepts (.header side report' params')

theorem headed_of_accepts {before : List (StreamCall F)} {side : Side} {report : KernelReport F}
    {params : List String} (h : (after before).Accepts (.header side report params))
    (rest : List (StreamCall F)) :
    ((after (before ++ .header side report params :: rest)).side side).width =
        some (side.names report params).length ∧
      ((after (before ++ .header side report params :: rest)).side side).sink.names ≠ [] := by
  have hwrite := side_next_of_accepts h
  rw [← after_concat] at hwrite
  rw [List.append_cons]
  refine ⟨width_append ?_, names_append ?_⟩
  · exact congrArg Stream.width hwrite
  · have hnames := congrArg (fun t : Stream (Table F) => t.sink.names) hwrite
    exact hnames ▸ side.names_ne_nil report params

theorem names_of_lastHeader {calls before rest : List (StreamCall F)} {side : Side}
    {report : KernelReport F} {params : List String}
    (h : LastHeader calls side report params before rest) :
    ((after calls).side side).sink.names = side.names report params := by
  obtain ⟨rfl, haccepted, hlast⟩ := h
  induction rest using List.reverseRecOn with
  | nil =>
    rw [after_concat]
    exact congrArg (fun t : Stream (Table F) => t.sink.names) (side_next_of_accepts haccepted)
  | append_singleton rest call ih =>
    have hnames := ih fun mid report' params' rest' hrest =>
      hlast mid report' params' (rest' ++ [call]) (by rw [hrest]; simp)
    rw [← List.cons_append, ← List.append_assoc, after_concat]
    rcases side_next (after (before ++ .header side report params :: rest)) call side with
      hsame | ⟨hside, hfits, hwrite⟩
    · rw [hsame]
      exact hnames
    · cases call with
      | row => rw [hwrite]; exact hnames
      | header side' report' params' =>
        obtain rfl : side' = side := hside
        exact absurd (accepts_iff.mpr hfits) (hlast rest report' params' [] rfl)

end Tables

/-- What two fresh tables keep to under any calls. -/
structure Rectangular (calls : List (StreamCall F)) : Prop where
  rows : ∀ side, ∀ row ∈ ((Tables.after calls).side side).sink.rows,
    ((Tables.after calls).side side).width = some row.length
  header : ∀ side before report params rest,
    calls = before ++ .header side report params :: rest →
    (Tables.after before).Accepts (.header side report params) →
    ((Tables.after calls).side side).sink.names.length = (side.names report params).length ∧
      ∀ row ∈ ((Tables.after calls).side side).sink.rows,
        row.length = (side.names report params).length
  accepted : ∀ side state report s,
    (StreamCall.row side state report).attempt (Tables.after calls) = (.ok (), s) →
    (s.side side).sink.rows =
        ((Tables.after calls).side side).sink.rows ++ [side.row state report] ∧
      (s.side side).sink.names = ((Tables.after calls).side side).sink.names ∧
      ∀ other, other ≠ side → s.side other = (Tables.after calls).side other
  refused : ∀ call e, (call.attempt (Tables.after calls)).1 = .error e →
    Tables.after (calls ++ [call]) = Tables.after calls ∧
      ∃ width, ((Tables.after calls).side call.side).width = some width ∧ width ≠ call.width ∧
        e = .sizeMismatch call.op "row width" call.width "bound columns" width
  aligned : ∀ side report params before rest,
    Tables.LastHeader calls side report params before rest →
    ∀ state report', side.Matches report params state report' →
      (Tables.after calls).Accepts (.row side state report') ∧
        (side.columns report params).map (Column.name? report.names params) =
          ((Tables.after calls).side side).sink.names.map some ∧
        (side.columns report params).map (Column.value? state report') =
          (side.row state report').map some

/-- Each of two fresh streams is a rectangular table whose rows line up with its header. -/
theorem streams_rectangular (calls : List (StreamCall F)) : Rectangular calls where
  rows side := (Tables.tabular calls side).rows
  header := by
    rintro side before report params rest rfl haccepted
    obtain ⟨hwidth, hnames⟩ := Tables.headed_of_accepts haccepted rest
    have htabular := Tables.tabular (before ++ .header side report params :: rest) side
    refine ⟨?_, fun row hrow => ?_⟩
    · exact Option.some.inj ((htabular.names hnames).symm.trans hwidth)
    · exact Option.some.inj ((htabular.rows row hrow).symm.trans hwidth)
  accepted side state report s h := by
    have hfits := StreamCall.fits_of_attempt (congrArg Prod.fst h)
    obtain rfl := congrArg Prod.snd ((StreamCall.attempt_fits hfits).symm.trans h)
    have hside := Tables.side_setSide (Tables.after calls)
      (((Tables.after calls).side side).extended (side.row state report)) side
    refine ⟨?_, ?_, fun other hne => Tables.side_setSide_ne _ _ hne⟩
    · exact congrArg (fun t : Stream (Table F) => t.sink.rows) hside
    · exact (congrArg (fun t : Stream (Table F) => t.sink.names) hside).trans rfl
  refused call e h := by
    rcases ((Tables.after calls).side call.side).fits_or_bound call.width with
      hfits | ⟨width, hwidth, hne⟩
    · rw [StreamCall.attempt_fits hfits] at h
      cases h
    · refine ⟨?_, width, hwidth, hne, ?_⟩
      · rw [Tables.after_concat, Tables.next, StreamCall.attempt_bound hwidth hne]
      · rw [StreamCall.attempt_bound hwidth hne] at h
        exact (Except.error.inj h).symm
  aligned side report params before rest h state report' hmatches := by
    have hnames := Tables.names_of_lastHeader h
    have hwidth := (Tables.headed_of_accepts h.accepted rest).1
    rw [← h.split] at hwidth
    refine ⟨Tables.accepts_iff.mpr fun width hw => ?_, ?_, Side.map_value? hmatches⟩
    · have hlength := Side.length_row hmatches
      exact (Option.some.inj (hw.symm.trans hwidth)).trans hlength.symm
    · rw [hnames]
      exact side.map_name? report params

end Autodiff
