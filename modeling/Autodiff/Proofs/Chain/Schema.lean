import Mathlib.Data.Rat.Init
import Autodiff.Proofs.Chain.Tables

/-!
# Column names of a stream

A stream binds the number of its columns and not their names. Its first header therefore stays
exactly as long as no later header brings other names in the same number: such a header is taken,
and the rows already written come to stand under names that are not theirs.
-/

set_option autoImplicit false

namespace Autodiff

variable {F : Type}

/-- A header for the stream with other names than the given ones, and just as many. -/
def StreamCall.Relabels (side : Side) (names : List String) : StreamCall F → Prop
  | .header side' report params =>
    side' = side ∧ side.names report params ≠ names ∧
      (side.names report params).length = names.length
  | .row _ _ _ => False

instance (side : Side) (names : List String) :
    (call : StreamCall F) → Decidable (call.Relabels side names)
  | .header _ _ _ => inferInstanceAs (Decidable (_ ∧ _ ∧ _))
  | .row _ _ _ => inferInstanceAs (Decidable False)

namespace Tables

def header (calls : List (StreamCall F)) (side : Side) : List String :=
  ((after calls).side side).sink.names

structure FirstHeader (calls : List (StreamCall F)) (side : Side) (report : KernelReport F)
    (params : List String) (before rest : List (StreamCall F)) : Prop where
  split : calls = before ++ .header side report params :: rest
  accepted : (after before).Accepts (.header side report params)
  first : ∀ earlier report' params' later,
    before = earlier ++ .header side report' params' :: later →
    ¬ (after earlier).Accepts (.header side report' params')

/-- From its first header on a stream keeps the names that it has then. -/
structure SchemaBound (calls : List (StreamCall F)) (side : Side) (report : KernelReport F)
    (params : List String) (before rest : List (StreamCall F)) : Prop where
  kept : ∀ mid later, rest = mid ++ later →
    header (before ++ .header side report params :: mid) side = side.names report params
  refused : ∀ mid report' params' later, rest = mid ++ .header side report' params' :: later →
    side.names report' params' ≠ side.names report params →
    (StreamCall.header side report' params').attempt
        (after (before ++ .header side report params :: mid)) =
      (.error (.sizeMismatch (StreamCall.header side report' params').op "row width"
        (side.names report' params').length "bound columns" (side.names report params).length),
        after (before ++ .header side report params :: mid))
  rows : ∀ earlier state report' later, calls = earlier ++ .row side state report' :: later →
    header earlier side = [] ∨ header earlier side = header calls side

theorem header_of_unheaded {calls : List (StreamCall F)} {side : Side}
    (h : ∀ earlier report params later, calls = earlier ++ .header side report params :: later →
      ¬ (after earlier).Accepts (.header side report params)) : header calls side = [] := by
  induction calls using List.reverseRecOn with
  | nil => cases side <;> rfl
  | append_singleton calls call ih =>
    have hbefore : header calls side = [] := ih fun earlier report params later hsplit =>
      h earlier report params (later ++ [call]) (by rw [hsplit]; simp)
    unfold header at hbefore ⊢
    rw [after_concat]
    rcases side_next (after calls) call side with hsame | ⟨hside, hfits, hwrite⟩
    · rw [hsame]
      exact hbefore
    · cases call with
      | row => rw [hwrite]; exact hbefore
      | header side' report params =>
        obtain rfl : side' = side := hside
        exact absurd (accepts_iff.mpr hfits) (h calls report params [] rfl)

variable {calls before rest : List (StreamCall F)} {side : Side} {report : KernelReport F}
variable {params : List String}

theorem header_concat_accepted {report' : KernelReport F} {params' : List String}
    (h : (after calls).Accepts (.header side report' params')) :
    header (calls ++ [.header side report' params']) side = side.names report' params' := by
  have hwrite := side_next_of_accepts h
  rw [← after_concat] at hwrite
  exact congrArg (fun t : Stream (Table F) => t.sink.names) hwrite

theorem header_concat {call : StreamCall F} (hcall : ¬ call.Relabels side (header calls side))
    (hwidth : ((after calls).side side).width = some (header calls side).length) :
    header (calls ++ [call]) side = header calls side := by
  unfold header
  rw [after_concat]
  rcases side_next (after calls) call side with hsame | ⟨hside, hfits, hwrite⟩
  · rw [hsame]
  · rw [hwrite]
    cases call with
    | row => rfl
    | header side' report' params' =>
      obtain rfl : side' = side := hside
      have hlength : (header calls side').length = (side'.names report' params').length :=
        hfits _ hwidth
      by_contra hne
      exact hcall ⟨rfl, hne, hlength.symm⟩

theorem header_append (haccepted : (after before).Accepts (.header side report params))
    (hsame : ∀ call ∈ rest, ¬ call.Relabels side (side.names report params)) :
    header (before ++ .header side report params :: rest) side = side.names report params := by
  induction rest using List.reverseRecOn with
  | nil => exact header_concat_accepted haccepted
  | append_singleton rest call ih =>
    have hheader := ih fun c hc => hsame c (List.mem_append_left _ hc)
    have hwidth := (headed_of_accepts haccepted rest).1
    rw [← hheader] at hwidth
    have hcall : ¬ call.Relabels side (side.names report params) :=
      hsame call (List.mem_append_right _ List.mem_cons_self)
    rw [← hheader] at hcall
    rw [← List.cons_append, ← List.append_assoc, header_concat hcall hwidth, hheader]

theorem FirstHeader.bound (h : FirstHeader calls side report params before rest)
    (hsame : ∀ call ∈ rest, ¬ call.Relabels side (side.names report params)) :
    SchemaBound calls side report params before rest := by
  obtain ⟨rfl, haccepted, hfirst⟩ := h
  have hkept : ∀ mid later, rest = mid ++ later →
      header (before ++ .header side report params :: mid) side = side.names report params := by
    rintro mid later rfl
    exact header_append haccepted fun call hcall => hsame call (List.mem_append_left _ hcall)
  refine ⟨hkept, ?_, ?_⟩
  · rintro mid report' params' later rfl hne
    have hwidth := (headed_of_accepts haccepted mid).1
    have hmem : StreamCall.header side report' params' ∈
        mid ++ .header side report' params' :: later :=
      List.mem_append_right _ List.mem_cons_self
    refine StreamCall.attempt_bound hwidth fun hlength => ?_
    exact hsame _ hmem ⟨rfl, hne, hlength.symm⟩
  · intro earlier state report' later hsplit
    rw [hkept rest [] (List.append_nil rest).symm]
    rcases List.append_eq_append_iff.mp hsplit with ⟨mid, rfl, hmid⟩ | ⟨mid, rfl, hmid⟩
    · cases mid with
      | nil => cases hmid
      | cons call mid =>
        obtain ⟨rfl, hrest⟩ := List.cons.inj hmid
        exact .inr (hkept mid _ hrest)
    · refine .inl (header_of_unheaded fun earlier' report'' params'' later' hearlier => ?_)
      refine hfirst earlier' report'' params'' (later' ++ mid) ?_
      rw [hearlier]
      simp

/-- The names of a stream stay bound exactly as long as no header relabels it. -/
theorem schema_bound_iff (h : FirstHeader calls side report params before rest) :
    SchemaBound calls side report params before rest ↔
      ∀ call ∈ rest, ¬ call.Relabels side (side.names report params) := by
  refine ⟨fun hbound call hcall hrelabels => ?_, h.bound⟩
  obtain ⟨mid, later, rfl⟩ := List.append_of_mem hcall
  cases call with
  | row => exact hrelabels
  | header side' report' params' =>
    obtain ⟨rfl, hne, hlength⟩ := hrelabels
    have hrefused := hbound.refused mid report' params' later rfl hne
    have hwidth := (headed_of_accepts h.accepted mid).1
    have hfits : ((after (before ++ .header side' report params :: mid)).side side').Fits
        (StreamCall.header side' report' params').width :=
      fun width hw => (Option.some.inj (hw.symm.trans hwidth)).trans hlength.symm
    rw [StreamCall.attempt_fits hfits] at hrefused
    cases hrefused

def repeatedHeader : List (StreamCall ℚ) :=
  [.row .diagnostic ⟨[2], -1, 1⟩ { withGradient := true, gradient := some [3] },
    .header .diagnostic { withGradient := true } ["a", "b"],
    .header .diagnostic { withGradient := true } ["a"]]

theorem schema_bound_iff_repeatedHeader :
    FirstHeader (.header .diagnostic { withGradient := true } ["a"] :: repeatedHeader) .diagnostic
        { withGradient := true } ["a"] [] repeatedHeader ∧
      SchemaBound (.header .diagnostic { withGradient := true } ["a"] :: repeatedHeader) .diagnostic
        { withGradient := true } ["a"] [] repeatedHeader := by
  have hfirst : FirstHeader (.header .diagnostic { withGradient := true } ["a"] :: repeatedHeader)
      .diagnostic { withGradient := true } ["a"] [] repeatedHeader :=
    ⟨rfl, rfl, fun _ _ _ _ h => absurd h (by simp)⟩
  exact ⟨hfirst, (schema_bound_iff hfirst).mpr (by decide)⟩

def relabelledRow : List (StreamCall ℚ) :=
  [.row .sample ⟨[2], -1, 1⟩ {}, .header .sample {} ["b"]]

/-- The second header is taken, so the row is read under a name that it was not written under. -/
theorem header_relabelled :
    FirstHeader (.header .sample {} ["a"] :: relabelledRow) .sample {} ["a"] [] relabelledRow ∧
      header (.header .sample {} ["a"] :: relabelledRow.take 1) .sample =
        ["lp__", "accept_stat__", "a"] ∧
      header (.header .sample {} ["a"] :: relabelledRow) .sample = ["lp__", "accept_stat__", "b"] ∧
      ((after (.header .sample {} ["a"] :: relabelledRow)).side .sample).sink.rows = [[-1, 1, 2]] ∧
      ¬ SchemaBound (.header .sample {} ["a"] :: relabelledRow) .sample {} ["a"] []
        relabelledRow := by
  have hfirst : FirstHeader (.header .sample {} ["a"] :: relabelledRow) .sample {} ["a"] []
      relabelledRow :=
    ⟨rfl, rfl, fun _ _ _ _ h => absurd h (by simp)⟩
  refine ⟨hfirst, rfl, rfl, rfl, fun hbound => ?_⟩
  have hkept : header (.header .sample {} ["a"] :: relabelledRow) .sample =
      ["lp__", "accept_stat__", "a"] :=
    hbound.kept relabelledRow [] (List.append_nil _).symm
  exact absurd hkept (by decide)

end Tables

end Autodiff
