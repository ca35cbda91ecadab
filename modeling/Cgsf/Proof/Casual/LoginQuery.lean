import Cgsf.Casual.LoginQuery

/-!
# What a login can write, and what it asks the database
-/

namespace Cgsf.Proof.Casual
open Cgsf.Library Cgsf.Casual SFLogicEntry

/-! ## Texts in a message -/

theorem cString_noTerminator (text : Text) : 0 ∉ cString text := by
  intro member
  simpa using List.mem_takeWhile_imp member

theorem cString_terminated {text : Text} (plain : 0 ∉ text) (rest : Text) :
    cString (text ++ 0 :: rest) = text := by
  have all : ∀ c ∈ text, decide (c ≠ 0) = true := by
    intro c member
    simpa using fun eq : c = 0 => plain (eq ▸ member)
  rw [cString, List.takeWhile_append_of_pos all]
  simp

theorem readString_spec {message : SFMessage} {text rest : Text} (size : Nat)
    (within : message.data.length ≤ maxMessageBuffer) (plain : 0 ∉ text)
    (ahead : message.data.drop message.usCurrentReadPosition = text ++ 0 :: rest) :
    message.readString size =
      if text.length + 1 ≤ size then
        some (text, { message with
          usCurrentReadPosition := message.usCurrentReadPosition + text.length + 1 })
      else none := by
  have left := congrArg List.length ahead
  simp only [List.length_drop, List.length_append, List.length_cons] at left
  have copied : cString (message.dataBuffer.drop message.usCurrentReadPosition) = text := by
    rw [SFMessage.dataBuffer, List.drop_append_of_le_length (by omega), ahead, List.append_assoc]
    exact cString_terminated plain _
  have inside : message.usCurrentReadPosition + text.length < maxMessageBuffer := by omega
  simp [SFMessage.readString, copied, inside]

theorem loginMessage_eq (player : SFPlayer) :
    SFPlayerInit.loginMessage player =
      if (cString player.username).length + (cString player.password).length + 2 ≤
          maxMessageBuffer then
        some { usCommand := dbmsgLogin, serial := player.serial,
               data := cString player.username ++ 0 :: (cString player.password ++ [0]) }
      else none := by
  simp only [SFPlayerInit.loginMessage, SFDBPacketSystem.getInitMessage, SFMessage.writeString,
    SFMessage.write, List.length_append, List.length_singleton, List.length_nil, List.nil_append]
  split_ifs with name both
  · simp
    omega
  · simp
    omega
  · omega
  · rfl

/-- The worker takes the name, and fails at the password only. -/
theorem onLogin_spec (player : SFPlayer) :
    (SFPlayerInit.loginMessage player).bind SFMySQLAdaptorImpl.onLogin =
      if (cString player.username).length < 100 ∧ (cString player.password).length < 100 then
        some {
          userName := cString player.username
          password := cString player.password
          szQuery := sprintfS 100 (SFMySQLAdaptorImpl.queryText (cString player.username)
            (cString player.password)) }
      else none := by
  rw [loginMessage_eq]
  by_cases fits : (cString player.username).length + (cString player.password).length + 2 ≤
      maxMessageBuffer
  · have stored : (cString player.username ++ 0 :: (cString player.password ++ [0])).length ≤
        maxMessageBuffer := by
      simp only [List.length_append, List.length_cons, List.length_nil]
      omega
    have first := @readString_spec ⟨dbmsgLogin, player.serial,
      cString player.username ++ 0 :: (cString player.password ++ [0]), 0⟩ _ _ 100 stored
      (cString_noTerminator player.username) rfl
    have second := @readString_spec ⟨dbmsgLogin, player.serial,
      cString player.username ++ 0 :: (cString player.password ++ [0]),
      0 + (cString player.username).length + 1⟩ _ [] 100 stored
      (cString_noTerminator player.password) (by simp [← List.drop_drop])
    rw [if_pos fits, Option.bind_some, SFMySQLAdaptorImpl.onLogin, first]
    by_cases name : (cString player.username).length < 100
    · rw [if_pos (show _ + 1 ≤ 100 from name)]
      simp only [Option.bind_eq_bind, Option.bind_some]
      rw [second]
      by_cases pass : (cString player.password).length < 100
      · rw [if_pos (show _ + 1 ≤ 100 from pass), if_pos ⟨name, pass⟩]
        rfl
      · rw [if_neg (by omega), if_neg (fun both => pass both.2)]
        rfl
    · rw [if_neg (by omega), if_neg (fun both => name both.1)]
      rfl
  · rw [if_neg fits, if_neg (by simp only [maxMessageBuffer] at fits; omega)]
    rfl

theorem memberMessage_eq (command : UInt16) (player : SFPlayer) :
    SFRoom.memberMessage command player =
      if (cString player.username).length + 5 ≤ maxMessageBuffer then
        some { usCommand := command,
               data := leBytes 4 (BitVec.ofInt 32 player.serial).toNat ++
                 (cString player.username ++ [0]) }
      else none := by
  have index : SFMessage.writeInt { usCommand := command } player.serial =
      some { usCommand := command,
             data := leBytes 4 (BitVec.ofInt 32 player.serial).toNat } := by
    rw [SFMessage.writeInt, SFMessage.write, if_pos (by simp [maxMessageBuffer])]
    simp
  rw [SFRoom.memberMessage, index]
  simp only [Option.bind_eq_bind, Option.bind_some, SFMessage.writeString, SFMessage.write,
    leBytes_length, List.length_append, List.length_singleton]
  split_ifs
  · rfl
  · omega
  · omega
  · rfl

/-- An observer is told what the room knows, the serial as an `int`. -/
theorem onMemberMessage_spec (command : UInt16) (player : SFPlayer) :
    (SFRoom.memberMessage command player).bind SFPlayer.onMemberMessage =
      if (cString player.username).length < 100 then
        some ((BitVec.ofInt 32 player.serial).toInt, cString player.username)
      else none := by
  rw [memberMessage_eq]
  by_cases fits : (cString player.username).length + 5 ≤ maxMessageBuffer
  · let word := leBytes 4 (BitVec.ofInt 32 player.serial).toNat
    have width : word.length = 4 := leBytes_length ..
    let message : SFMessage :=
      { usCommand := command, data := word ++ (cString player.username ++ [0]) }
    have stored : message.data.length ≤ maxMessageBuffer := by
      simp only [message, List.length_append, List.length_singleton, width]
      omega
    have buffered : (message.dataBuffer.drop 0).take 4 = word := by
      rw [List.drop_zero, SFMessage.dataBuffer, List.append_assoc, ← width, List.take_left]
    have value : leValue word = (BitVec.ofInt 32 player.serial).toNat :=
      leValue_leBytes_of_lt 4 _ (BitVec.isLt _)
    have index : message.readStart.readInt =
        some ((BitVec.ofInt 32 player.serial).toInt,
          { message with usCurrentReadPosition := 4 }) := by
      have position : 0 + 4 ≤ maxMessageBuffer := by decide
      rw [SFMessage.readInt, SFMessage.readStart, if_pos position]
      simp only [SFMessage.dataBuffer] at buffered ⊢
      rw [buffered, value, BitVec.ofNat_toNat, BitVec.setWidth_eq]
    have name := @readString_spec { message with usCurrentReadPosition := 4 } _ [] 100 stored
      (cString_noTerminator player.username)
      (show message.data.drop 4 = _ by rw [← width]; exact List.drop_left)
    rw [if_pos fits, Option.bind_some, SFPlayer.onMemberMessage, index]
    simp only [Option.bind_eq_bind, Option.bind_some]
    rw [name]
    by_cases short : (cString player.username).length < 100
    · rw [if_pos (show _ + 1 ≤ 100 from short), if_pos short]
      rfl
    · rw [if_neg (by omega), if_neg short]
      rfl
  · rw [if_neg fits, if_neg (by simp only [maxMessageBuffer] at fits; omega)]
    rfl

/-! ## Names and passwords that fit -/

theorem buffersKept_iff (player : SFPlayer) :
    BuffersKept player ↔
      (cString player.username).length < 100 ∧ (cString player.password).length < 100 := by
  have worker : ((SFPlayerInit.loginMessage player).bind SFMySQLAdaptorImpl.onLogin).isSome ↔
      (cString player.username).length < 100 ∧ (cString player.password).length < 100 := by
    rw [onLogin_spec, Option.isSome_ite]
  have observer (command : UInt16) :
      ((SFRoom.memberMessage command player).bind SFPlayer.onMemberMessage).isSome ↔
        (cString player.username).length < 100 := by
    rw [onMemberMessage_spec, Option.isSome_ite]
  constructor
  · rintro ⟨asked, -⟩
    exact worker.mp asked
  · intro short
    exact ⟨worker.mpr short, fun command _ => (observer command).mpr short.1⟩

theorem onLogin_player (s : SFLogicEntry) (p : PlayerRef) (username password : Text) :
    (SFPlayerInit.onLogin s p username password).players p =
      { s.players p with username, password } :=
  Function.update_self ..

/-- A login keeps to the buffers on its path exactly when its two texts, cut at their terminators,
have room in the worker's. -/
theorem login_buffers_iff (s : SFLogicEntry) (p : PlayerRef) (username password : Text) :
    BuffersKept ((SFPlayerInit.onLogin s p username password).players p) ↔
      (cString username).length < 100 ∧ (cString password).length < 100 := by
  rw [onLogin_player]
  exact buffersKept_iff _

/-- A name of one hundred letters. -/
theorem longName_overruns :
    ¬BuffersKept ((SFPlayerInit.onLogin (initServer false []) 0 (List.replicate 100 97)
      [112]).players 0) := by
  rw [onLogin_player, buffersKept_iff]
  decide

/-! ## The statement that is built -/

/-- The query, cut where its tokens should end. -/
theorem queryText_eq (userName password : Text) :
    SFMySQLAdaptorImpl.queryText userName password =
      ascii "SELECT * FROM tblLogin WHERE UserName = " ++ SqlText.quote ::
        (userName ++ SqlText.quote :: (ascii " AND Password = " ++ SqlText.quote ::
          (password ++ SqlText.quote :: []))) := by
  have opened : ascii "SELECT * FROM tblLogin WHERE UserName = '" =
      ascii "SELECT * FROM tblLogin WHERE UserName = " ++ [SqlText.quote] := by decide
  have between : ascii "' AND Password = '" =
      SqlText.quote :: (ascii " AND Password = " ++ [SqlText.quote]) := by decide
  have closed : ascii "'" = [SqlText.quote] := by decide
  simp [SFMySQLAdaptorImpl.queryText, opened, between, closed]

theorem quiet_between (password : Text) :
    SqlText.Quiet (ascii " AND Password = " ++ SqlText.quote ::
      (password ++ SqlText.quote :: [])) := by
  intro h head
  have space : h = 32 := (Option.some.inj head).symm
  rw [space]
  decide

theorem quiet_end : SqlText.Quiet [] := by
  intro h head
  cases head

theorem tokenize_query_iff (username password : Text) :
    SqlText.tokenize (SFMySQLAdaptorImpl.queryText (cString username) (cString password)) =
        some (statementOf username password) ↔
      Verbatim username ∧ Verbatim password := by
  let start := ascii "SELECT * FROM tblLogin WHERE UserName = "
  let middle := ascii " AND Password = "
  let rest := middle ++ SqlText.quote :: (cString password ++ SqlText.quote :: [])
  have fuel : (SFMySQLAdaptorImpl.queryText (cString username) (cString password)).length =
      start.length + (middle.length +
        ((cString username).length + (cString password).length + 2 + 1) + 1) := by
    simp only [queryText_eq, List.length_append, List.length_cons, List.length_nil, start, middle]
    omega
  have template : statementOf username password =
      start.map .symbol ++ (.literal username :: (middle.map .symbol ++ [.literal password])) := by
    simp [statementOf, start, middle]
  have ended (fuel : Nat) : SqlText.tokens fuel [] = some [] := by cases fuel <;> rfl
  rw [SqlText.tokenize, fuel, template, queryText_eq,
    SqlText.tokens_symbols_iff start (by decide +kernel)]
  refine (SqlText.tokens_literal_iff (quiet_between _) username _ _).trans
    (and_congr_right fun _ => ?_)
  rw [SqlText.tokens_symbols_iff middle (by decide +kernel)]
  refine (SqlText.tokens_literal_iff quiet_end password _ _).trans ?_
  exact and_iff_left (ended _)

/-- Where the worker builds its query, the query is the template with the two texts exactly when
each text stands for itself. -/
theorem login_query_iff (s : SFLogicEntry) (p : PlayerRef) (username password query : Text)
    (built : (((SFPlayerInit.loginMessage
      ((SFPlayerInit.onLogin s p username password).players p)).bind
        SFMySQLAdaptorImpl.onLogin).bind (·.szQuery)) = some query) :
    SqlText.tokenize query = some (statementOf username password) ↔
      Verbatim username ∧ Verbatim password := by
  rw [onLogin_player, onLogin_spec] at built
  obtain ⟨worker, taken, asked⟩ := Option.bind_eq_some_iff.mp built
  obtain ⟨-, filled⟩ := Option.ite_none_right_eq_some.mp taken
  cases filled
  obtain ⟨-, text⟩ := Option.ite_none_right_eq_some.mp asked
  cases text
  exact tokenize_query_iff username password

theorem alice_asked :
    SqlText.tokenize (SFMySQLAdaptorImpl.queryText (ascii "alice") (ascii "pw")) =
      some (statementOf (ascii "alice") (ascii "pw")) :=
  (login_query_iff (initServer false []) 0 (ascii "alice") (ascii "pw")
    (SFMySQLAdaptorImpl.queryText (ascii "alice") (ascii "pw")) (by decide)).mpr
      (by decide)

/-- A password that ends its literal. -/
theorem query_injected :
    ∃ query, (((SFPlayerInit.loginMessage
      ((SFPlayerInit.onLogin (initServer false []) 0 (ascii "bob")
        (ascii "' OR 'a' = 'a")).players 0)).bind
          SFMySQLAdaptorImpl.onLogin).bind (·.szQuery)) = some query ∧
      SqlText.tokenize query ≠ some (statementOf (ascii "bob") (ascii "' OR 'a' = 'a")) :=
  ⟨SFMySQLAdaptorImpl.queryText (ascii "bob") (ascii "' OR 'a' = 'a"), by decide,
    by decide⟩

end Cgsf.Proof.Casual
