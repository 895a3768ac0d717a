import Transcode.Dialogue

/-! # Where scripts lead

A property of states that no answer destroys holds along every run, and what it comes to at the last
answer holds of the result. -/

namespace Transcode

/-- A property of the states that may come next, with one of the results. -/
def Next.Holds {σ ρ : Type} (I : σ → Prop) (Q : ρ → Prop) : Next σ ρ → Prop
  | ask s => I s
  | done r => Q r

theorem Next.Holds.mono {σ ρ : Type} {I I' : σ → Prop} {Q Q' : ρ → Prop} {next : Next σ ρ}
    (h : next.Holds I Q) (hI : ∀ s, I s → I' s) (hQ : ∀ r, Q r → Q' r) : next.Holds I' Q' := by
  cases next with
  | ask s => exact hI s h
  | done r => exact hQ r h

namespace Dialogue

variable {σ ρ : Type} {d : Dialogue σ ρ} {s s' : σ} {line : String}

theorem stand_feed_ask (h : (d.answer s (some line)).next = .ask s') (rest : List String) :
    (d.feed s (line :: rest)).stand = (d.feed s' rest).stand := by
  simp [feed, h]

theorem stand_feed_done {r : ρ} (h : (d.answer s (some line)).next = .done r)
    (rest : List String) : (d.feed s (line :: rest)).stand = .done (r, rest) := by
  simp [feed, h]

/-- A property that is kept by the answers holds of the state in which a script ends. -/
theorem holds_stand_feed {I : σ → Prop} {Q : ρ → Prop}
    (hstep : ∀ s line, I s → (d.answer s (some line)).next.Holds I Q) (hs : I s)
    (script : List String) : (d.feed s script).stand.Holds I fun result => Q result.1 := by
  induction script generalizing s with
  | nil => exact hs
  | cons line rest ih =>
    have hnext := hstep s line hs
    cases hturn : (d.answer s (some line)).next with
    | ask s' =>
      rw [hturn] at hnext
      rw [stand_feed_ask hturn]
      exact ih hnext
    | done r =>
      rw [hturn] at hnext
      rw [stand_feed_done hturn]
      exact hnext

end Dialogue

/-- The answer to a question, if the event is one. -/
def Event.answer? : Event → Option (Option String)
  | ask _ answer => some answer
  | clear | say _ | store _ _ => none

/-- Events without questions. -/
def IsSilent (events : List Event) : Prop :=
  events.filterMap Event.answer? = []

@[simp] theorem isSilent_nil : IsSilent [] := rfl

@[simp] theorem isSilent_clear_cons (events : List Event) :
    IsSilent (.clear :: events) ↔ IsSilent events := .rfl

@[simp] theorem isSilent_say_cons (line : String) (events : List Event) :
    IsSilent (.say line :: events) ↔ IsSilent events := .rfl

@[simp] theorem isSilent_store_cons (key value : String) (events : List Event) :
    IsSilent (.store key value :: events) ↔ IsSilent events := .rfl

@[simp] theorem isSilent_map_say (lines : List String) : IsSilent (lines.map .say) := by
  induction lines with
  | nil => rfl
  | cons line lines ih => exact ih

/-! ## The questions of a run -/

/-- A question that is asked in a state, with its answer. -/
structure Question (σ : Type) where
  state : σ
  answer : Option String

namespace Dialogue

variable {σ ρ : Type} {d : Dialogue σ ρ} {s : σ}

/-- Questions that lead from a state to a result, each of them asked where the one before leads. -/
inductive Asks (d : Dialogue σ ρ) : σ → List (Question σ) → ρ → Prop where
  | last {s : σ} {answer : Option String} {r : ρ} (turn : (d.answer s answer).next = .done r) :
      Asks d s [⟨s, answer⟩] r
  | next {s s' : σ} {answer : Option String} {questions : List (Question σ)} {r : ρ}
      (turn : (d.answer s answer).next = .ask s') (rest : Asks d s' questions r) :
      Asks d s (⟨s, answer⟩ :: questions) r

/-- What happens when a question is asked. -/
def events (d : Dialogue σ ρ) (q : Question σ) : List Event :=
  .ask (d.prompt q.state) q.answer :: (d.answer q.state q.answer).shown

/-- What is asked after the end of the input: as many questions as the dialogue has patience for, if it
never runs out of it. -/
theorem exists_asks_hangUp (d : Dialogue σ ρ) (s : σ) : ∃ questions n,
    d.Asks s questions (d.hangUp s).2 ∧ (d.hangUp s).1 = questions.flatMap d.events ∧
      questions.map (·.answer) = List.replicate n none ∧
      ((∀ s, 0 < d.patience s) → n ≤ d.patience s) := by
  rw [hangUp]
  split
  · rename_i s' hturn
    obtain ⟨questions, n, hasks, hevents, hanswers, hpatience⟩ := exists_asks_hangUp d s'
    refine ⟨_, n + 1, .next hturn hasks, by rw [hevents]; rfl, ?_, fun hpos => ?_⟩
    · rw [List.map_cons, hanswers, List.replicate_succ]
    · have hlt := d.patience_lt hturn
      have hn := hpatience hpos
      omega
  · rename_i r hturn
    exact ⟨_, 1, .last hturn, by simp [events], rfl, fun hpos => hpos s⟩
termination_by d.patience s
decreasing_by exact d.patience_lt ‹_›

/-- The answers are seen of the events, if no questions are shown in between. -/
theorem filterMap_answer?_events {questions : List (Question σ)}
    (h : ∀ q ∈ questions, IsSilent (d.answer q.state q.answer).shown) :
    (questions.flatMap d.events).filterMap Event.answer? = questions.map (·.answer) := by
  induction questions with
  | nil => rfl
  | cons q questions ih =>
    have hshown : (d.answer q.state q.answer).shown.filterMap Event.answer? = [] := h q (by simp)
    have hrest := ih fun q' hq' => h q' (List.mem_cons_of_mem _ hq')
    rw [List.flatMap_cons, List.filterMap_append, hrest, events, List.filterMap_cons, hshown]
    rfl

theorem run_cons_done {line : String} {r : ρ} (h : (d.answer s (some line)).next = .done r)
    (rest : List String) : d.run s (line :: rest) = ⟨d.events ⟨s, some line⟩, r, rest⟩ := by
  simp only [run, feed, h, events]

theorem run_cons_ask {s' : σ} {line : String} (h : (d.answer s (some line)).next = .ask s')
    (rest : List String) : d.run s (line :: rest) =
      { d.run s' rest with events := d.events ⟨s, some line⟩ ++ (d.run s' rest).events } := by
  simp only [run, feed, h, events]
  cases (d.feed s' rest).stand with
  | done r => rfl
  | ask s'' => simp

/-- A run that is told by its questions. They are answered with the lines that are read, and then with
the end of the input, which comes only when no line is left. -/
structure Tells (d : Dialogue σ ρ) (s : σ) (script : List String) (questions : List (Question σ))
    (read : List String) (unanswered : Nat) : Prop where
  asks : d.Asks s questions (d.run s script).result
  events : (d.run s script).events = questions.flatMap d.events
  answers : questions.map (·.answer) = read.map some ++ List.replicate unanswered none
  script_eq : script = read ++ (d.run s script).unread
  unread : unanswered ≠ 0 → (d.run s script).unread = []
  unanswered_le : ∀ bound, (∀ s, 0 < d.patience s ∧ d.patience s ≤ bound) → unanswered ≤ bound

theorem tells_of_hangUp (d : Dialogue σ ρ) (s : σ) :
    ∃ questions n, d.Tells s [] questions [] n := by
  obtain ⟨questions, n, hasks, hevents, hanswers, hpatience⟩ := d.exists_asks_hangUp s
  refine ⟨questions, n, hasks, hevents, hanswers, rfl, fun _ => rfl, fun bound hbound => ?_⟩
  exact Nat.le_trans (hpatience fun s => (hbound s).1) (hbound s).2

theorem Tells.cons {s' : σ} {line : String} {rest : List String} {questions : List (Question σ)}
    {read : List String} {n : Nat} (h : (d.answer s (some line)).next = .ask s')
    (ht : d.Tells s' rest questions read n) :
    d.Tells s (line :: rest) (⟨s, some line⟩ :: questions) (line :: read) n := by
  have hrun := run_cons_ask h rest
  refine ⟨?_, ?_, ?_, ?_, ?_, ht.unanswered_le⟩
  · rw [hrun]
    exact .next h ht.asks
  · rw [hrun, List.flatMap_cons, ← ht.events]
  · rw [List.map_cons, ht.answers, List.map_cons, List.cons_append]
  · rw [hrun, List.cons_append, ← ht.script_eq]
  · rw [hrun]
    exact ht.unread

/-- Every run is told by its questions. -/
theorem exists_tells (d : Dialogue σ ρ) (s : σ) (script : List String) :
    ∃ questions read n, d.Tells s script questions read n := by
  induction script generalizing s with
  | nil =>
    obtain ⟨questions, n, ht⟩ := d.tells_of_hangUp s
    exact ⟨questions, [], n, ht⟩
  | cons line rest ih =>
    cases hturn : (d.answer s (some line)).next with
    | done r =>
      have hrun := run_cons_done hturn rest
      refine ⟨[⟨s, some line⟩], [line], 0, ?_, ?_, rfl, ?_, by simp, by simp⟩
      · rw [hrun]
        exact .last hturn
      · simp [hrun]
      · simp [hrun]
    | ask s' =>
      obtain ⟨questions, read, n, ht⟩ := ih s'
      exact ⟨_, _, n, ht.cons hturn⟩

theorem exists_asks_run (d : Dialogue σ ρ) (s : σ) (script : List String) : ∃ questions,
    d.Asks s questions (d.run s script).result ∧
      (d.run s script).events = questions.flatMap d.events := by
  obtain ⟨questions, _, _, ht⟩ := d.exists_tells s script
  exact ⟨questions, ht.asks, ht.events⟩

/-- The answer to the first question is told by what happens. -/
theorem answer_eq_of_events {answer answer' : Option String} {questions questions' : List (Question σ)}
    (h : (⟨s, answer⟩ :: questions).flatMap d.events = (⟨s, answer'⟩ :: questions').flatMap d.events) :
    answer = answer' := by
  simp only [List.flatMap_cons, events, List.cons_append] at h
  exact (Event.ask.inj (List.cons.inj h).1).2

/-- Questions, and the result they lead to, are told by what happens when they are asked. -/
theorem Asks.unique {questions questions' : List (Question σ)} {r r' : ρ}
    (h : d.Asks s questions r) (h' : d.Asks s questions' r')
    (hevents : questions.flatMap d.events = questions'.flatMap d.events) :
    questions = questions' ∧ r = r' := by
  induction h generalizing questions' with
  | last turn =>
    cases h' with
    | last turn' =>
      obtain rfl := answer_eq_of_events hevents
      exact ⟨rfl, Next.done.inj (turn.symm.trans turn')⟩
    | next turn' rest' =>
      rw [answer_eq_of_events hevents, turn'] at turn
      cases turn
  | next turn rest ih =>
    cases h' with
    | last turn' =>
      rw [answer_eq_of_events hevents, turn'] at turn
      cases turn
    | next turn' rest' =>
      obtain rfl := answer_eq_of_events hevents
      obtain rfl := Next.ask.inj (turn.symm.trans turn')
      obtain ⟨rfl, hresult⟩ := ih rest' (List.append_cancel_left hevents)
      exact ⟨rfl, hresult⟩

/-- The last question is the one whose answer leads to the result. -/
theorem Asks.exists_last {questions : List (Question σ)} {r : ρ} (h : d.Asks s questions r) :
    ∃ q, questions.getLast? = some q ∧ (d.answer q.state q.answer).next = .done r := by
  induction h with
  | last turn => exact ⟨_, rfl, turn⟩
  | next turn rest ih =>
    obtain ⟨q, hlast, hdone⟩ := ih
    exact ⟨q, by rw [List.getLast?_cons, hlast]; rfl, hdone⟩

section

variable {I : σ → Prop} {Q : ρ → Prop} {script read : List String} {n : Nat}
  {questions : List (Question σ)}

/-- A property that is kept by the answers to questions holds in all the states in which they are
asked, and what it comes to at the last answer holds of the result. -/
theorem Asks.induction {r : ρ} (h : d.Asks s questions r)
    (hstep : ∀ q ∈ questions, I q.state → (d.answer q.state q.answer).next.Holds I Q) (hs : I s) :
    (∀ q ∈ questions, I q.state) ∧ Q r := by
  induction h with
  | @last s answer r turn =>
    have hnext := hstep ⟨s, answer⟩ (by simp) hs
    rw [turn] at hnext
    exact ⟨by simpa using hs, hnext⟩
  | @next s s' answer questions r turn rest ih =>
    have hnext := hstep ⟨s, answer⟩ (by simp) hs
    rw [turn] at hnext
    obtain ⟨hquestions, hr⟩ := ih (fun q hq => hstep q (List.mem_cons_of_mem _ hq)) hnext
    refine ⟨fun q hq => ?_, hr⟩
    rcases List.mem_cons.mp hq with rfl | hq
    · exact hs
    · exact hquestions q hq

theorem Tells.mem_read (ht : d.Tells s script questions read n) {q : Question σ}
    (hq : q ∈ questions) {line : String} (hline : q.answer = some line) : line ∈ read := by
  have hanswer : q.answer ∈ questions.map (·.answer) := List.mem_map_of_mem hq
  rw [ht.answers, hline] at hanswer
  rcases List.mem_append.mp hanswer with hread | hnone
  · simpa using hread
  · cases List.eq_of_mem_replicate hnone

/-- A property that is kept by the lines that a run reads and by the end of the input. -/
theorem Tells.induction (ht : d.Tells s script questions read n)
    (hstep : ∀ answer, (∀ line ∈ answer, line ∈ read) → ∀ s, I s →
      (d.answer s answer).next.Holds I Q) (hs : I s) :
    (∀ q ∈ questions, I q.state) ∧ Q (d.run s script).result :=
  ht.asks.induction (fun q hq => hstep q.answer (fun _ => ht.mem_read hq) q.state) hs

end

/-! ## Two runs -/

/-- Lines are left out of a script, each of which has a property in the state in which it is read. What
is not read is kept. -/
inductive Thins (d : Dialogue σ ρ) (P : σ → String → Prop) :
    σ → List String → List String → Prop where
  | nil {s : σ} : Thins d P s [] []
  | leave {s s' : σ} {line : String} {script kept : List String} (property : P s line)
      (turn : (d.answer s (some line)).next = .ask s') (rest : Thins d P s' script kept) :
      Thins d P s (line :: script) kept
  | keep {s s' : σ} {line : String} {script kept : List String}
      (turn : (d.answer s (some line)).next = .ask s') (rest : Thins d P s' script kept) :
      Thins d P s (line :: script) (line :: kept)
  | finish {s : σ} {line : String} {script : List String} {r : ρ}
      (turn : (d.answer s (some line)).next = .done r) :
      Thins d P s (line :: script) (line :: script)

/-- Lines that lead nowhere can be left out. -/
theorem Thins.run {P : σ → String → Prop}
    (hP : ∀ s line, P s line → (d.answer s (some line)).next = .ask s) {script kept : List String}
    (h : d.Thins P s script kept) :
    (d.run s kept).result = (d.run s script).result ∧
      (d.run s kept).unread = (d.run s script).unread := by
  induction h with
  | nil => exact ⟨rfl, rfl⟩
  | @leave s s' line script kept property turn rest ih =>
    have hsame := hP s line property
    rw [turn] at hsame
    cases hsame
    rw [run_cons_ask turn]
    exact ih
  | keep turn rest ih =>
    rw [run_cons_ask turn, run_cons_ask turn]
    exact ih
  | finish turn => exact ⟨rfl, rfl⟩

/-- A run goes on with a second script where the first one has led. -/
theorem run_append {s' : σ} {first : List String} (h : (d.feed s first).stand = .ask s')
    (second : List String) : (d.run s (first ++ second)).result = (d.run s' second).result ∧
      (d.run s (first ++ second)).unread = (d.run s' second).unread := by
  simp only [run, feed_append, h]
  cases (d.feed s' second).stand with
  | done r => exact ⟨rfl, rfl⟩
  | ask s'' => exact ⟨rfl, rfl⟩

end Dialogue

end Transcode
