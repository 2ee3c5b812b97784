import LinProg.Proofs.Session.Warning

set_option autoImplicit false

/-! # The history of a session

While a problem is read, the messages so far are determined by the session and by the text that was
dropped behind the objective: `Session.History` says which they are, and every line that is accepted
keeps to it (`Session.History.next`). From this follows what a log tells about a session: the
changes of phase on the way to it (`Session.History.transitions_eq`), its statements
(`Session.History.about_restriction`, `Session.History.about_signRestriction`), and otherwise
details only (`Session.History.exists_details`). -/

namespace LinProg

open Text

/-! ## What messages are about -/

/-- What a message is about. -/
inductive Message.Kind where
  | objective
  | restriction
  | signRestriction
  | phase
  | model
  /-- Text that is dropped, or a line that is ignored. -/
  | unused
  | file
  deriving DecidableEq

def Message.kind : Message → Message.Kind
  | .textDropped _ => .unused
  | .objectiveRead _ => .objective
  | .restrictionRead .. => .restriction
  | .signRestrictionRead _ => .signRestriction
  | .phaseChanged .. => .phase
  | .modelAssembled .. => .model
  | .modelShown _ => .model
  | .lineIgnored _ => .unused
  | .modelWritten _ => .file

/-- Whether a message has a severity that only reports on a model have. -/
def Message.IsOnModel (m : Message) : Prop :=
  m.severity = .info ∨ m.severity = .trace

/-- The messages of a log that are about something. -/
def about (kind : Message.Kind) (log : List Message) : List Message :=
  log.filter (·.kind = kind)

/-- The change of phase that a message reports. -/
def Message.transition? : Message → Option (Phase × Phase)
  | .phaseChanged old new => some (old, new)
  | _ => none

/-- The changes of phase that a log reports, in order. -/
def transitions (log : List Message) : List (Phase × Phase) :=
  log.filterMap Message.transition?

/-! ## The history of a session -/

/-- What reading an objective reports. -/
def objectiveReports (dropped : List Char) (e : Expression) : List Message :=
  Message.ofDropped dropped ++ [.objectiveRead e, .phaseChanged .objective .restrictions]

/-- What reading restrictions reports. -/
def restrictionReports (rs : List Restriction) : List Message :=
  rs.zipIdx.map fun entry => .restrictionRead entry.2 entry.1

/-- What reading sign restrictions reports. -/
def signRestrictionReports (ss : List SignRestriction) : List Message :=
  ss.map .signRestrictionRead

/-- All that was reported before a session whose problem is not complete. -/
inductive Session.History (s : Session) : List Message → Prop
  | objective (hphase : s.phase = .objective) (hrs : s.restrictions = [])
      (hss : s.signRestrictions = []) : History s []
  | restrictions {e : Expression} (hphase : s.phase = .restrictions)
      (hobjective : s.objective? = some e) (hss : s.signRestrictions = []) (dropped : List Char) :
      History s (objectiveReports dropped e ++ restrictionReports s.restrictions)
  | signRestrictions {e : Expression} (hphase : s.phase = .signRestrictions)
      (hobjective : s.objective? = some e) (dropped : List Char) :
      History s (objectiveReports dropped e ++ restrictionReports s.restrictions ++
        ([.phaseChanged .restrictions .signRestrictions] ++
          signRestrictionReports s.signRestrictions))

theorem restrictionReports_concat (rs : List Restriction) (r : Restriction) :
    restrictionReports (rs ++ [r]) = restrictionReports rs ++ [.restrictionRead rs.length r] := by
  simp [restrictionReports, List.zipIdx_append]

theorem signRestrictionReports_concat (ss : List SignRestriction) (s : SignRestriction) :
    signRestrictionReports (ss ++ [s]) = signRestrictionReports ss ++ [.signRestrictionRead s] :=
  List.map_append

namespace Session.History

variable {s s' : Session} {log : List Message}

theorem new : Session.new.History [] :=
  .objective rfl rfl rfl

/-- A line that is accepted, but does not complete the problem, adds what it reports. -/
theorem next (h : s.History log) {line : String} {messages : List Message}
    (haccepts : s.Accepts line s' messages) (hopen : s'.phase ≠ .assembled) :
    s'.History (log ++ messages) := by
  cases haccepts with
  | @objective e dropped hphase =>
    cases h with
    | objective _ hrs hss =>
      have hreports : objectiveReports dropped e =
          objectiveReports dropped e ++ restrictionReports s.restrictions := by
        rw [hrs, restrictionReports, List.zipIdx_nil, List.map_nil, List.append_nil]
      rw [List.nil_append, ← objectiveReports, hreports]
      refine .restrictions ?_ ?_ ?_ dropped
      exacts [rfl, rfl, hss]
    | _ hother => cases hother.symm.trans hphase
  | restriction hphase =>
    cases h with
    | restrictions _ hobjective hss dropped =>
      rw [List.append_assoc, ← restrictionReports_concat]
      refine .restrictions ?_ ?_ ?_ dropped
      exacts [hphase, hobjective, hss]
    | _ hother => cases hother.symm.trans hphase
  | restrictionsEnd hphase =>
    cases h with
    | @restrictions e _ hobjective hss dropped =>
      have hreports : [.phaseChanged .restrictions .signRestrictions] =
          [.phaseChanged .restrictions .signRestrictions] ++
            signRestrictionReports s.signRestrictions := by
        rw [hss, signRestrictionReports, List.map_nil, List.append_nil]
      rw [hreports]
      refine .signRestrictions ?_ ?_ dropped
      exacts [rfl, hobjective]
    | _ hother => cases hother.symm.trans hphase
  | signRestriction hphase =>
    cases h with
    | signRestrictions _ hobjective dropped =>
      rw [List.append_assoc _ _ [_], List.append_assoc _ _ [_], ← signRestrictionReports_concat]
      refine .signRestrictions ?_ ?_ dropped
      exacts [hphase, hobjective]
    | _ hother => cases hother.symm.trans hphase
  | signRestrictionsEnd => exact absurd rfl hopen
  | ignored hphase => exact absurd hphase hopen

end Session.History

/-! ## What a history tells -/

/-- The changes of phase on the way to a phase. -/
def Phase.path : Phase → List (Phase × Phase)
  | .objective => []
  | .restrictions => [(.objective, .restrictions)]
  | .signRestrictions => [(.objective, .restrictions), (.restrictions, .signRestrictions)]
  | .assembled => [(.objective, .restrictions), (.restrictions, .signRestrictions),
      (.signRestrictions, .assembled)]

section Log

variable (log more : List Message)

theorem about_append (kind : Message.Kind) :
    about kind (log ++ more) = about kind log ++ about kind more :=
  List.filter_append ..

theorem transitions_append :
    transitions (log ++ more) = transitions log ++ transitions more :=
  List.filterMap_append

variable {log} {kind kind' : Message.Kind}

theorem about_self (h : ∀ m ∈ log, m.kind = kind) : about kind log = log :=
  List.filter_eq_self.2 fun m hm => decide_eq_true (h m hm)

theorem about_eq_nil (h : ∀ m ∈ log, m.kind = kind) (hne : kind ≠ kind') : about kind' log = [] :=
  List.filter_eq_nil_iff.2 fun m hm => by simpa [h m hm] using hne

theorem transitions_eq_nil (h : ∀ m ∈ log, m.kind = kind) (hne : kind ≠ .phase) :
    transitions log = [] := by
  refine List.filterMap_eq_nil_iff.2 fun m hm => ?_
  cases m with
  | phaseChanged old new => exact absurd (h _ hm).symm hne
  | _ => rfl

end Log

theorem eq_of_mem_ofDropped {dropped : List Char} :
    ∀ m ∈ Message.ofDropped dropped, m = .textDropped (String.ofList dropped) := by
  intro m hm
  unfold Message.ofDropped at hm
  split at hm
  · cases hm
  · exact List.mem_singleton.1 hm

theorem kind_of_mem_ofDropped {dropped : List Char} :
    ∀ m ∈ Message.ofDropped dropped, m.kind = .unused := by
  intro m hm
  rw [eq_of_mem_ofDropped m hm]
  rfl

theorem severity_of_mem_ofDropped {dropped : List Char} :
    ∀ m ∈ Message.ofDropped dropped, m.severity = .warn := by
  intro m hm
  rw [eq_of_mem_ofDropped m hm]
  rfl

theorem kind_of_mem_restrictionReports {rs : List Restriction} :
    ∀ m ∈ restrictionReports rs, m.kind = .restriction := by
  intro m hm
  obtain ⟨entry, -, rfl⟩ := List.mem_map.1 hm
  rfl

theorem kind_of_mem_signRestrictionReports {ss : List SignRestriction} :
    ∀ m ∈ signRestrictionReports ss, m.kind = .signRestriction := by
  intro m hm
  obtain ⟨s, -, rfl⟩ := List.mem_map.1 hm
  rfl

theorem about_objectiveReports (dropped : List Char) (e : Expression) {kind : Message.Kind}
    (h : kind = .restriction ∨ kind = .signRestriction) :
    about kind (objectiveReports dropped e) = [] := by
  have hunused : .unused ≠ kind := by
    rcases h with rfl | rfl <;> decide
  rw [objectiveReports, about_append, about_eq_nil kind_of_mem_ofDropped hunused]
  rcases h with rfl | rfl <;> rfl

theorem transitions_objectiveReports (dropped : List Char) (e : Expression) :
    transitions (objectiveReports dropped e) = [(.objective, .restrictions)] := by
  rw [objectiveReports, transitions_append,
    transitions_eq_nil kind_of_mem_ofDropped (by decide)]
  rfl

namespace Session.History

variable {s : Session} {log : List Message}

theorem transitions_eq (h : s.History log) : transitions log = s.phase.path := by
  cases h with
  | objective hphase =>
    rw [hphase]
    rfl
  | restrictions hphase hobjective hss dropped =>
    rw [transitions_append, transitions_objectiveReports,
      transitions_eq_nil kind_of_mem_restrictionReports (by decide), hphase]
    rfl
  | signRestrictions hphase hobjective dropped =>
    rw [transitions_append, transitions_append, transitions_append, transitions_objectiveReports,
      transitions_eq_nil kind_of_mem_restrictionReports (by decide),
      transitions_eq_nil kind_of_mem_signRestrictionReports (by decide), hphase]
    rfl

theorem about_restriction (h : s.History log) :
    about .restriction log = restrictionReports s.restrictions := by
  cases h with
  | objective hphase hrs hss =>
    rw [hrs]
    rfl
  | restrictions hphase hobjective hss dropped =>
    rw [about_append, about_objectiveReports dropped _ (.inl rfl),
      about_self kind_of_mem_restrictionReports]
    rfl
  | signRestrictions hphase hobjective dropped =>
    rw [about_append, about_append, about_append, about_objectiveReports dropped _ (.inl rfl),
      about_self kind_of_mem_restrictionReports,
      about_eq_nil kind_of_mem_signRestrictionReports (by decide)]
    exact List.append_nil _

theorem about_signRestriction (h : s.History log) :
    about .signRestriction log = signRestrictionReports s.signRestrictions := by
  cases h with
  | objective hphase hrs hss =>
    rw [hss]
    rfl
  | restrictions hphase hobjective hss dropped =>
    rw [about_append, about_objectiveReports dropped _ (.inr rfl),
      about_eq_nil kind_of_mem_restrictionReports (by decide), hss]
    rfl
  | signRestrictions hphase hobjective dropped =>
    rw [about_append, about_append, about_append, about_objectiveReports dropped _ (.inr rfl),
      about_eq_nil kind_of_mem_restrictionReports (by decide),
      about_self kind_of_mem_signRestrictionReports]
    rfl

/-- Nothing but dropped text is worth more than a detail. -/
theorem exists_details (h : s.History log) :
    ∃ dropped details, log = Message.ofDropped dropped ++ details ∧
      ∀ m ∈ details, m.severity = .debug := by
  have hrestrictions : ∀ rs, ∀ m ∈ restrictionReports rs, m.severity = .debug := by
    intro rs m hm
    obtain ⟨entry, -, rfl⟩ := List.mem_map.1 hm
    rfl
  have hsigns : ∀ ss, ∀ m ∈ signRestrictionReports ss, m.severity = .debug := by
    intro ss m hm
    obtain ⟨s, -, rfl⟩ := List.mem_map.1 hm
    rfl
  cases h with
  | objective => exact ⟨[], [], rfl, List.forall_mem_nil _⟩
  | restrictions hphase hobjective hss dropped =>
    refine ⟨dropped, _, by rw [objectiveReports, List.append_assoc], ?_⟩
    rw [List.forall_mem_append]
    exact ⟨by simp [Message.severity], hrestrictions _⟩
  | signRestrictions hphase hobjective dropped =>
    refine ⟨dropped, _, by rw [objectiveReports, List.append_assoc, List.append_assoc], ?_⟩
    rw [List.forall_mem_append, List.forall_mem_append, List.forall_mem_append]
    exact ⟨by simp [Message.severity], hrestrictions _, by simp [Message.severity], hsigns _⟩

theorem not_isOnModel (h : s.History log) : ∀ m ∈ log, ¬ m.IsOnModel := by
  obtain ⟨dropped, details, rfl, hdetails⟩ := h.exists_details
  rw [List.forall_mem_append]
  constructor
  · intro m hm
    rw [Message.IsOnModel, severity_of_mem_ofDropped m hm]
    decide
  · intro m hm
    rw [Message.IsOnModel, hdetails m hm]
    decide

/-- At most one warning comes first, whatever else is reported. -/
theorem exists_warning (h : s.History log) (more : List Message)
    (hmore : ∀ m ∈ more, m.severity ≠ .warn) :
    ∃ before after, log ++ more = before ++ after ∧ before.length ≤ 1 ∧
      (∀ m ∈ before, m.severity = .warn) ∧ ∀ m ∈ after, m.severity ≠ .warn := by
  obtain ⟨dropped, details, rfl, hdetails⟩ := h.exists_details
  refine ⟨Message.ofDropped dropped, details ++ more, List.append_assoc .., ?_,
    severity_of_mem_ofDropped, ?_⟩
  · rw [Message.ofDropped]
    split <;> simp
  · rw [List.forall_mem_append]
    exact ⟨fun m hm => by simp [hdetails m hm], hmore⟩

end Session.History

end LinProg
