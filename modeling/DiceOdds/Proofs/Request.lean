import DiceOdds.Proofs.Accepted
import DiceOdds.Proofs.Draws
import DiceOdds.Proofs.Failure
import DiceOdds.Proofs.Json.Ascii
import DiceOdds.Proofs.Json.RoundTrip
import DiceOdds.Request

/-!
# Every message is answered

A message either asks for something or it does not.  If it does, the reply repeats the command and
tells the fault in the expression, the result of a roll or the odds; if not, it says so.  As long as
the source of draws answers, one reply is due: every accepted expression has a roll and has odds.
It is answered in plain ASCII, which is read back as the object that was meant, unless it tells an
integer that has too many digits to be written.
-/

namespace DiceOdds.Request

/-! ### Messages -/

/-- The message is an object that names the command and holds the expression. -/
def Asks (message : Text) (command : Command) (expression : Text) : Prop :=
  ∃ members, Json.read? message = some (.object members) ∧
    (Json.object members).member? (.ofString "command") = some (.string command.name) ∧
    (Json.object members).member? (.ofString "expression") = some (.string expression)

/-- The message is no JSON, or no object, or it names no command, or it holds no expression. -/
def Unreadable (message : Text) : Prop :=
  Json.read? message = none ∨
    ∃ json, Json.read? message = some json ∧
      ((∀ members, json ≠ .object members) ∨
        (∀ command : Command,
          json.member? (.ofString "command") ≠ some (.string command.name)) ∨
        (∀ expression, json.member? (.ofString "expression") ≠ some (.string expression)))

theorem Command.ofName?_eq_some_iff {name : Text} {command : Command} :
    ofName? name = some command ↔ name = command.name := by
  have hname : ∀ command : Command, ofName? command.name = some command := by
    intro command
    cases command <;> decide
  constructor
  · intro hfound
    have hmatch := List.find?_some hfound
    exact (beq_iff_eq.1 hmatch).symm
  · rintro rfl
    exact hname command

theorem Command.name_injective {left right : Command} (heq : left.name = right.name) :
    left = right := by
  have hfound := ofName?_eq_some_iff.2 heq
  rwa [ofName?_eq_some_iff.2 rfl, Option.some.injEq] at hfound

theorem Command.joined_name (command : Command) : command.name.Joined := by
  cases command <;> exact Text.joined_ofString _

theorem string?_eq_some_iff {json : Json} {text : Text} :
    string? json = some text ↔ json = .string text := by
  cases json <;> simp [string?]

theorem exists_members_of_member? {key : Text} {json value : Json}
    (hmember : json.member? key = some value) : ∃ members, json = .object members := by
  cases json with
  | object members => exact ⟨members, rfl⟩
  | null | bool | integer | decimal | nan | infinity | string | array => cases hmember

theorem ofMessage?_eq_some_iff {message : Text} {command : Command} {expression : Text} :
    ofMessage? message = some ⟨command, expression⟩ ↔ Asks message command expression := by
  simp only [ofMessage?, Option.bind_eq_bind, Option.bind_eq_some_iff, string?_eq_some_iff,
    Command.ofName?_eq_some_iff, Option.pure_def, Option.some.injEq, Request.mk.injEq, Asks]
  constructor
  · rintro ⟨json, hread, _, hcommand, _, rfl, _, rfl, _, hexpression, _, rfl, rfl, rfl⟩
    obtain ⟨members, rfl⟩ := exists_members_of_member? hcommand
    exact ⟨members, hread, hcommand, hexpression⟩
  · rintro ⟨members, hread, hcommand, hexpression⟩
    exact ⟨_, hread, _, hcommand, _, rfl, _, rfl, _, hexpression, _, rfl, rfl, rfl⟩

theorem Asks.unique {message expression other : Text} {command otherCommand : Command}
    (hasks : Asks message command expression) (hother : Asks message otherCommand other) :
    command = otherCommand ∧ expression = other := by
  have hrequest := ofMessage?_eq_some_iff.2 hasks
  rw [ofMessage?_eq_some_iff.2 hother, Option.some.injEq, Request.mk.injEq] at hrequest
  exact ⟨hrequest.1.symm, hrequest.2.symm⟩

theorem unreadable_iff {message : Text} :
    Unreadable message ↔ ∀ command expression, ¬ Asks message command expression := by
  constructor
  · rintro hunreadable command expression ⟨members, hread, hcommand, hexpression⟩
    obtain hnone | ⟨json, hjson, hbad⟩ := hunreadable
    · rw [hread] at hnone
      cases hnone
    · obtain rfl := Option.some.inj (hread.symm.trans hjson)
      obtain hobject | hnocommand | hnoexpression := hbad
      · exact hobject members rfl
      · exact hnocommand command hcommand
      · exact hnoexpression expression hexpression
  · intro hasks
    by_contra hreadable
    simp only [Unreadable, not_or, not_exists, not_and, not_forall, not_not] at hreadable
    obtain ⟨hsome, hgood⟩ := hreadable
    obtain ⟨json, hjson⟩ := Option.ne_none_iff_exists'.1 hsome
    obtain ⟨⟨members, rfl⟩, ⟨command, hcommand⟩, expression, hexpression⟩ := hgood json hjson
    exact hasks command expression ⟨members, hjson, hcommand, hexpression⟩

/-- A message with nothing in it but a command and an expression. -/
def written (command : Command) (expression : Text) : Text :=
  Json.write (.object [(.ofString "command", .string command.name),
    (.ofString "expression", .string expression)])

theorem asks_written (command : Command) {expression : Text} (hjoined : expression.Joined) :
    Asks (written command expression) command expression := by
  refine ⟨_, Json.read?_write ?_, rfl, rfl⟩
  exact ⟨Text.joined_ofString _, command.joined_name, Text.joined_ofString _, hjoined, trivial⟩

/-! ### Replies -/

/-- What can be replied to a message. -/
inductive Reply
  | unreadable
  | faulty (command : Command) (fault : Fault)
  | rolled (result : Int)
  | analyzed (odds : Distribution)

namespace Reply

def token : Fault.Cause → List (Text × Json)
  | .unexpectedToken character => [(.ofString "token", .string [character])]
  | _ => []

/-- The object that a reply is sent as. -/
def json : Reply → Json
  | unreadable => .object [(.ofString "command", .string (.ofString "message_parse_error"))]
  | faulty command fault =>
      .object ([(.ofString "command", .string command.name),
        (.ofString "error", .string (.ofString fault.cause.name)),
        (.ofString "index", .integer fault.index)] ++ token fault.cause)
  | rolled result =>
      .object [(.ofString "command", .string (.ofString "calculate_dice")),
        (.ofString "result", .integer result)]
  | analyzed odds =>
      .object [(.ofString "command", .string (.ofString "analyze_dice")),
        (.ofString "offset", .integer odds.start),
        (.ofString "weights", .array (odds.weights.map .integer)),
        (.ofString "max_weight", .integer odds.maxWeight),
        (.ofString "total_weight", .integer odds.totalWeight)]

/-- The integers that a reply tells. -/
def numerals : Reply → List Int
  | unreadable => []
  | faulty _ fault => [fault.index]
  | rolled result => [result]
  | analyzed odds => odds.start :: (odds.weights ++ [odds.maxWeight, odds.totalWeight])

/-- All integers that the reply tells can be written. -/
def Fits (reply : Reply) : Prop :=
  ∀ number ∈ reply.numerals, Text.Fits number

theorem numerals_json (reply : Reply) : reply.json.numerals = reply.numerals := by
  have hweights (weights : List Int) :
      Json.numeralsOfElements (weights.map .integer) = weights := by
    induction weights with
    | nil => rfl
    | cons weight weights ih => exact congrArg (weight :: ·) ih
  cases reply with
  | unreadable | rolled => rfl
  | faulty command fault =>
      obtain ⟨cause, index⟩ := fault
      cases cause <;> rfl
  | analyzed odds => exact congrArg (fun weights => odds.start :: (weights ++ _)) (hweights _)

theorem fits_json_iff {reply : Reply} : reply.json.Fits ↔ reply.Fits := by
  rw [Json.Fits, numerals_json, Fits]

theorem readable_json {reply : Reply} (hfits : reply.Fits) : reply.json.Readable := by
  have hkey (name : String) : (Text.ofString name).Joined := Text.joined_ofString name
  cases reply with
  | unreadable => exact ⟨hkey _, hkey _, trivial⟩
  | faulty command fault =>
      have hindex : Text.Fits fault.index := hfits _ List.mem_cons_self
      obtain ⟨cause, index⟩ := fault
      cases cause with
      | unexpectedToken character =>
          exact ⟨hkey _, command.joined_name, hkey _, hkey _, hkey _, hindex, hkey _,
            Text.joined_singleton character, trivial⟩
      | badDie | illegalExpression | unmatchedParen | emptyExpression =>
          exact ⟨hkey _, command.joined_name, hkey _, hkey _, hkey _, hindex, trivial⟩
  | rolled result => exact ⟨hkey _, hkey _, hkey _, hfits _ List.mem_cons_self, trivial⟩
  | analyzed odds =>
      have hweights (weights : List Int) (hall : ∀ weight ∈ weights, Text.Fits weight) :
          Json.ReadableElements (weights.map .integer) := by
        induction weights with
        | nil => trivial
        | cons weight weights ih =>
            obtain ⟨hweight, hrest⟩ := List.forall_mem_cons.1 hall
            exact ⟨hweight, ih hrest⟩
      obtain ⟨hstart, hmore⟩ := List.forall_mem_cons.1 hfits
      obtain ⟨hall, htotals⟩ := List.forall_mem_append.1 hmore
      obtain ⟨hmaxWeight, htotal⟩ := List.forall_mem_cons.1 htotals
      exact ⟨hkey _, hkey _, hkey _, hstart, hkey _, hweights _ hall, hkey _, hmaxWeight, hkey _,
        htotal _ List.mem_cons_self, trivial⟩

theorem cause_eq {left right : Fault.Cause} (hname : left.name = right.name)
    (htoken : token left = token right) : left = right := by
  cases left <;> cases right <;> simp_all [Fault.Cause.name, token]

/-- The object that is sent tells which reply it stands for. -/
theorem json_injective {left right : Reply} (heq : left.json = right.json) : left = right := by
  have hofString {left right : String} : Text.ofString left = .ofString right ↔ left = right :=
    ⟨Text.ofString_injective, congrArg _⟩
  have hintegers {left right : List Int} :
      left.map Json.integer = right.map .integer ↔ left = right :=
    List.map_inj_right fun _ _ => Json.integer.inj
  cases left with
  | unreadable =>
    cases right with
    | unreadable => rfl
    | faulty | rolled | analyzed => simp [json] at heq
  | faulty command fault =>
    cases right with
    | faulty other otherFault =>
        simp only [json, Json.object.injEq, List.cons_append, List.nil_append, List.cons.injEq,
          Prod.mk.injEq, Json.string.injEq, Json.integer.injEq, hofString, true_and] at heq
        obtain ⟨hcommand, hname, hindex, htoken⟩ := heq
        rw [Command.name_injective hcommand]
        obtain ⟨cause, index⟩ := fault
        obtain ⟨otherCause, otherIndex⟩ := otherFault
        obtain rfl : cause = otherCause := cause_eq hname htoken
        obtain rfl : index = otherIndex := hindex
        rfl
    | unreadable | rolled | analyzed => simp [json, hofString] at heq
  | rolled result =>
    cases right with
    | rolled other =>
        simp only [json, Json.object.injEq, List.cons.injEq, Prod.mk.injEq, Json.integer.injEq,
          true_and, and_true] at heq
        rw [heq]
    | unreadable | faulty | analyzed => simp [json, hofString] at heq
  | analyzed odds =>
    cases right with
    | analyzed other =>
        obtain ⟨start, weights, hnonempty⟩ := odds
        obtain ⟨otherStart, otherWeights, hother⟩ := other
        simp only [json, Json.object.injEq, List.cons.injEq, Prod.mk.injEq, Json.integer.injEq,
          Json.array.injEq, hintegers, true_and] at heq
        obtain ⟨rfl, rfl, -⟩ := heq
        rfl
    | unreadable | faulty | rolled => simp [json, hofString] at heq

end Reply

/-! ### Answers -/

variable {σ : Type}

/-- What the reply to a message has to be if the draws come from `source`. -/
inductive Due (source : Source σ) (state : σ) (message : Text) : Reply → Prop
  | unreadable (hunreadable : Unreadable message) : Due source state message .unreadable
  | faulty {command : Command} {expression : Text} {fault : Fault}
      (hasks : Asks message command expression)
      (hparse : Expr.parse expression = .error (.fault fault)) :
      Due source state message (.faulty command fault)
  | rolled {expression : Text} {expr : Expr} {result : Int}
      (hasks : Asks message .calculate expression) (hparse : Expr.parse expression = .ok expr)
      (hroll : (expr.roll.run source state).result = some result) :
      Due source state message (.rolled result)
  | analyzed {expression : Text} {expr : Expr} {odds : Distribution}
      (hasks : Asks message .analyze expression) (hparse : Expr.parse expression = .ok expr)
      (hodds : expr.odds = .ok odds) : Due source state message (.analyzed odds)

section

variable {source : Source σ} {state : σ} {message expression : Text} {expr : Expr} {reply : Reply}

/-- The reply in JSON, if it can be written. -/
def Reply.written (reply : Reply) : Except Failure Text :=
  Failure.ofWritten (Json.write? reply.json)

theorem Reply.written_eq_ok_iff {answer : Text} :
    reply.written = .ok answer ↔ reply.Fits ∧ answer = Json.write reply.json := by
  rw [written, Failure.ofWritten_eq_ok_iff, Json.write?_eq_some_iff, fits_json_iff]

theorem Reply.written_eq_error_iff {failure : Failure} :
    reply.written = .error failure ↔ ¬ reply.Fits ∧ failure = .tooManyDigits := by
  rw [written, Failure.ofWritten_eq_error_iff, Json.write?_eq_none_iff, fits_json_iff]

/-- The computation that sends a reply without any draw. -/
def send (reply : Reply) : Draws (Except Failure Text) :=
  .done reply.written

theorem respond_unreadable (hunreadable : Unreadable message) :
    respond message = send .unreadable := by
  have hnone : ofMessage? message = none := by
    cases hrequest : ofMessage? message with
    | none => rfl
    | some request =>
        exact absurd (ofMessage?_eq_some_iff.1 hrequest) (unreadable_iff.1 hunreadable _ _)
  rw [respond, hnone]
  rfl

theorem respond_faulty {command : Command} {fault : Fault}
    (hasks : Asks message command expression)
    (hparse : Expr.parse expression = .error (.fault fault)) :
    respond message = send (.faulty command fault) := by
  rw [respond, ofMessage?_eq_some_iff.2 hasks]
  simp only [fields, hparse]
  obtain ⟨cause, index⟩ := fault
  cases cause <;> rfl

theorem respond_analyzed {odds : Distribution} (hasks : Asks message .analyze expression)
    (hparse : Expr.parse expression = .ok expr) (hodds : expr.odds = .ok odds) :
    respond message = send (.analyzed odds) := by
  rw [respond, ofMessage?_eq_some_iff.2 hasks]
  simp only [fields, hparse, hodds]
  rfl

/-- A response to a roll makes the calls of the roll. -/
theorem run_respond_rolled (hasks : Asks message .calculate expression)
    (hparse : Expr.parse expression = .ok expr) (source : Source σ) (state : σ) :
    (respond message).run source state =
      (expr.roll.run source state).map fun result =>
        (Reply.rolled result).written := by
  have hrespond : respond message =
      (expr.roll.bind fun result =>
          .done (Except.ok [(Text.ofString "result", Json.integer result)])).bind
        fun found => .done (found.bind (response Command.calculate.name)) := by
    rw [respond, ofMessage?_eq_some_iff.2 hasks]
    simp only [fields, hparse]
    rfl
  rw [hrespond, Draws.run_map, Draws.run_map]
  simp only [Play.map, Option.map_map]
  rfl

theorem result_of_due (hdue : Due source state message reply) :
    ((respond message).run source state).result = some reply.written := by
  cases hdue with
  | unreadable hunreadable => rw [respond_unreadable hunreadable]; rfl
  | faulty hasks hparse => rw [respond_faulty hasks hparse]; rfl
  | analyzed hasks hparse hodds => rw [respond_analyzed hasks hparse hodds]; rfl
  | rolled hasks hparse hroll =>
      rw [run_respond_rolled hasks hparse, Play.map, hroll]
      rfl

/-- No other end of a computation that responds is possible than a reply or a dry source. -/
theorem due_or_dry (source : Source σ) (state : σ) (message : Text) :
    (∃ reply, Due source state message reply) ∨
      ((respond message).run source state).result = none := by
  by_cases hunreadable : Unreadable message
  · exact .inl ⟨_, .unreadable hunreadable⟩
  · rw [unreadable_iff] at hunreadable
    push Not at hunreadable
    obtain ⟨command, expression, hasks⟩ := hunreadable
    cases hparse : Expr.parse expression with
    | error error =>
        obtain ⟨fault, rfl⟩ := Grammar.parse_eq_error hparse
        exact .inl ⟨_, .faulty hasks hparse⟩
    | ok expr =>
      cases command with
      | analyze =>
          obtain ⟨odds, hodds, -⟩ := Expr.exists_odds_of_parse hparse
          exact .inl ⟨_, .analyzed hasks hparse hodds⟩
      | calculate =>
        cases hroll : (expr.roll.run source state).result with
        | some result => exact .inl ⟨_, .rolled hasks hparse hroll⟩
        | none =>
            rw [run_respond_rolled hasks hparse, Play.map, hroll]
            exact .inr rfl

/-- The message is answered by a text that stands for the reply. -/
def Answers (source : Source σ) (state : σ) (message : Text) (reply : Reply) : Prop :=
  ∃ answer, ((respond message).run source state).result = some (.ok answer) ∧
    Json.read? answer = some reply.json

theorem answers_iff :
    Answers source state message reply ↔ Due source state message reply ∧ reply.Fits := by
  constructor
  · rintro ⟨answer, hresult, hread⟩
    obtain ⟨found, hdue⟩ | hdry := due_or_dry source state message
    · rw [result_of_due hdue, Option.some.injEq, Reply.written_eq_ok_iff] at hresult
      obtain ⟨hfits, rfl⟩ := hresult
      rw [Json.read?_write (Reply.readable_json hfits), Option.some.injEq] at hread
      rw [← Reply.json_injective hread]
      exact ⟨hdue, hfits⟩
    · rw [hresult] at hdry
      cases hdry
  · rintro ⟨hdue, hfits⟩
    refine ⟨Json.write reply.json, ?_, Json.read?_write (Reply.readable_json hfits)⟩
    rw [result_of_due hdue, Reply.written_eq_ok_iff.2 ⟨hfits, rfl⟩]

/-- No message is due two replies: it asks for one thing, which has one end. -/
theorem Due.unique {other : Reply} (hdue : Due source state message reply)
    (hother : Due source state message other) : reply = other := by
  cases hdue with
  | unreadable hunreadable =>
    cases hother with
    | unreadable => rfl
    | faulty hasks | rolled hasks | analyzed hasks =>
        exact absurd hasks (unreadable_iff.1 hunreadable _ _)
  | faulty hasks hparse =>
    cases hother with
    | unreadable hunreadable => exact absurd hasks (unreadable_iff.1 hunreadable _ _)
    | faulty hotherAsks hotherParse =>
        obtain ⟨rfl, rfl⟩ := hasks.unique hotherAsks
        cases hparse.symm.trans hotherParse
        rfl
    | rolled hotherAsks hotherParse | analyzed hotherAsks hotherParse =>
        obtain ⟨-, rfl⟩ := hasks.unique hotherAsks
        cases hparse.symm.trans hotherParse
  | rolled hasks hparse hroll =>
    cases hother with
    | unreadable hunreadable => exact absurd hasks (unreadable_iff.1 hunreadable _ _)
    | faulty hotherAsks hotherParse =>
        obtain ⟨-, rfl⟩ := hasks.unique hotherAsks
        cases hparse.symm.trans hotherParse
    | rolled hotherAsks hotherParse hotherRoll =>
        obtain ⟨-, rfl⟩ := hasks.unique hotherAsks
        cases hparse.symm.trans hotherParse
        cases hroll.symm.trans hotherRoll
        rfl
    | analyzed hotherAsks => cases (hasks.unique hotherAsks).1
  | analyzed hasks hparse hodds =>
    cases hother with
    | unreadable hunreadable => exact absurd hasks (unreadable_iff.1 hunreadable _ _)
    | faulty hotherAsks hotherParse =>
        obtain ⟨-, rfl⟩ := hasks.unique hotherAsks
        cases hparse.symm.trans hotherParse
    | rolled hotherAsks => cases (hasks.unique hotherAsks).1
    | analyzed hotherAsks hotherParse hotherOdds =>
        obtain ⟨-, rfl⟩ := hasks.unique hotherAsks
        cases hparse.symm.trans hotherParse
        cases hodds.symm.trans hotherOdds
        rfl

theorem due_unreadable_iff : Due source state message .unreadable ↔ Unreadable message :=
  ⟨fun | .unreadable hunreadable => hunreadable, .unreadable⟩

end

/-- As long as the source answers, one reply is due to every message.  It says that the message was
not understood if and only if that asks for nothing.  If all its integers can be written, the
message is answered by plain ASCII, which is read back as this reply and no other.  If not,
responding fails. -/
theorem respond_envelope {source : Source σ} (hendless : source.Endless) (state : σ)
    (message : Text) :
    ∃ reply, Due source state message reply ∧
      (∀ other, Due source state message other → other = reply) ∧
      (reply = .unreadable ↔ Unreadable message) ∧
      (reply.Fits → ∃ answer, ((respond message).run source state).result = some (.ok answer) ∧
        answer.Ascii ∧ Json.read? answer = some reply.json ∧
        ∀ other : Reply, Json.read? answer = some other.json → other = reply) ∧
      (¬ reply.Fits →
        ((respond message).run source state).result = some (.error .tooManyDigits)) := by
  obtain ⟨reply, hdue⟩ | hdry := due_or_dry source state message
  · have hresult := result_of_due hdue
    refine ⟨reply, hdue, fun other hother => hother.unique hdue, ?_, ?_, ?_⟩
    · constructor
      · rintro rfl
        exact due_unreadable_iff.1 hdue
      · intro hunreadable
        exact hdue.unique (.unreadable hunreadable)
    · intro hfits
      have hread := Json.read?_write (Reply.readable_json hfits)
      rw [Reply.written_eq_ok_iff.2 ⟨hfits, rfl⟩] at hresult
      refine ⟨_, hresult, Json.ascii_write _, hread, fun other hother => ?_⟩
      exact Reply.json_injective (Option.some.inj (hother.symm.trans hread))
    · intro hlong
      rwa [Reply.written_eq_error_iff.2 ⟨hlong, rfl⟩] at hresult
  · obtain ⟨answer, hanswer⟩ := Draws.exists_result hendless (respond message) state
    rw [hanswer] at hdry
    cases hdry

theorem respond_oddsOfTwoCoins :
    Source.congruential.Endless ∧
      ∃ answer,
        ((respond (written .analyze (.ofString "2d2"))).run Source.congruential 0).result =
          some (.ok answer) ∧
        answer.Ascii ∧
        Json.read? answer = some (Reply.analyzed ⟨2, [1, 2, 1], List.cons_ne_nil _ _⟩).json := by
  have hendless := Source.endless_congruential
  obtain ⟨reply, -, honly, -, hanswered, -⟩ :=
    respond_envelope hendless 0 (written .analyze (.ofString "2d2"))
  have hasks := asks_written .analyze (Text.joined_ofString "2d2")
  have hparse : Expr.parse (.ofString "2d2") =
      .ok (.binary .mul (.number 2) (.die { faces := 2 })) := by
    decide
  have hodds : (Expr.binary .mul (.number 2) (.die { faces := 2 })).odds =
      .ok ⟨2, [1, 2, 1], List.cons_ne_nil _ _⟩ := by
    decide
  obtain rfl := honly _ (.analyzed hasks hparse hodds)
  have hfits : (Reply.analyzed ⟨2, [1, 2, 1], List.cons_ne_nil _ _⟩).Fits := by
    unfold Reply.Fits
    decide
  obtain ⟨answer, hresult, hascii, hread, -⟩ := hanswered hfits
  exact ⟨hendless, answer, hresult, hascii, hread⟩

/-- A request for the least number that cannot be written. -/
def leastUnanswered : Text :=
  written .calculate (.ofInt (10 ^ 4300))

/-- The number is rolled without any draw, but the answer cannot be written. -/
theorem respond_leastUnwritten :
    Asks leastUnanswered .calculate (.ofInt (10 ^ 4300)) ∧
      Expr.parse (.ofInt (10 ^ 4300)) = .ok (.number (10 ^ 4300)) ∧
      Source.congruential.Endless ∧
      ((respond leastUnanswered).run Source.congruential 0).result =
        some (.error .tooManyDigits) := by
  have hasks : Asks leastUnanswered .calculate (.ofInt (10 ^ 4300)) :=
    asks_written .calculate (Text.joined_ofString _)
  have hparse : Expr.parse (.ofInt (10 ^ 4300)) = .ok (.number (10 ^ 4300)) :=
    Expr.parse_ofInt (Int.le_of_lt (Int.pow_pos (by decide)))
  have hdue : Due Source.congruential 0 leastUnanswered (.rolled (10 ^ 4300)) :=
    .rolled hasks hparse rfl
  have hlong : ¬ (Reply.rolled (10 ^ 4300)).Fits := fun hfits =>
    Text.not_fits_pow_digitLimit (hfits _ List.mem_cons_self)
  refine ⟨hasks, hparse, Source.endless_congruential, ?_⟩
  rw [result_of_due hdue, Reply.written_eq_error_iff.2 ⟨hlong, rfl⟩]

end DiceOdds.Request
