import Pgaio.Service.Alerter
import Pgaio.Text.JSONGrammar

/-!
# Telegram — the body of a notification

`sendTelegram` of `service/alerter.go` puts the chat id and the text between quotes as they are.  Text
without quotes, backslashes and control characters arrives (`body_says_of_plain`), the test notification
among it.  The text of an alert has a newline behind its first line, and a newline may not stand in a
JSON string: no alert makes a body that can be parsed (`alert_body_never_json`).
-/

namespace Pgaio
namespace Service

open Text

structure TelegramPost where
  url : String
  body : String
  deriving DecidableEq, Repr

/-- What `sendTelegram` posts. -/
def sendTelegram (cfg : TelegramConfig) (text : String) : TelegramPost where
  url := "https://api.telegram.org/bot" ++ cfg.botToken ++ "/sendMessage"
  body := "\x7b\"chat_id\":\"" ++ cfg.chatID ++ "\",\"text\":\"" ++ text ++
    "\",\"parse_mode\":\"HTML\"\x7d"

/-- The text of `SendTestNotification`. -/
def testNotification : String :=
  "✅ PGAIO test notification — alerting is working!"

/-! ## The parts of the body -/

def bodyStart : List Char := "\x7b\"chat_id\":\"".toList
def bodyMiddle : List Char := "\",\"text\":\"".toList
def bodyEnd : List Char := "\",\"parse_mode\":\"HTML\"\x7d".toList

theorem sendTelegram_body (cfg : TelegramConfig) (text : String) :
    (sendTelegram cfg text).body = "\x7b\"chat_id\":\"" ++ cfg.chatID ++ "\",\"text\":\"" ++ text ++
      "\",\"parse_mode\":\"HTML\"\x7d" := rfl

theorem toList_body (cfg : TelegramConfig) (text : String) :
    (sendTelegram cfg text).body.toList =
      bodyStart ++ (cfg.chatID.toList ++ (bodyMiddle ++ (text.toList ++ bodyEnd))) := by
  rw [sendTelegram_body]
  simp only [String.toList_append, List.append_assoc]
  rfl

def chatName : List Char := "chat_id".toList
def textName : List Char := "text".toList
def modeName : List Char := "parse_mode".toList
def modeHTML : List Char := "HTML".toList

theorem bodyStart_eq : bodyStart = '\x7b' :: '"' :: (chatName ++ ['"', ':', '"']) := by
  decide +kernel

theorem bodyMiddle_eq : bodyMiddle = '"' :: ',' :: '"' :: (textName ++ ['"', ':', '"']) := by
  decide +kernel

theorem bodyEnd_eq : bodyEnd =
    '"' :: ',' :: '"' :: (modeName ++ '"' :: ':' :: '"' :: (modeHTML ++ ['"', '\x7d'])) := by
  decide +kernel

/-- The body is a JSON object with the members `chat_id`, `text` and `parse_mode`, and the first two are
the given texts. -/
def BodySays (body : String) (chatID text : String) : Prop :=
  ∃ mode ms, Describes body (.obj ms) ∧
    ms.Perm [(chatName, .str chatID.toList), (textName, .str text.toList), (modeName, mode)]

/-! ## Plain texts -/

def PlainText (s : String) : Prop :=
  ∀ c ∈ s.toList, isPlain c = true

/-- A chat id and a text that need no escapes arrive. -/
theorem body_says_of_plain {cfg : TelegramConfig} {text : String} (hchat : PlainText cfg.chatID)
    (htext : PlainText text) : BodySays (sendTelegram cfg text).body cfg.chatID text := by
  have hblank : Blank [] := fun c hc => absurd hc List.not_mem_nil
  -- The names and the mode are fixed texts without escapes.
  have hchatName := stringBody_of_plain (List.all_eq_true.1 (show chatName.all isPlain by
    decide +kernel))
  have htextName := stringBody_of_plain (List.all_eq_true.1 (show textName.all isPlain by
    decide +kernel))
  have hmodeName := stringBody_of_plain (List.all_eq_true.1 (show modeName.all isPlain by
    decide +kernel))
  have hmodeHTML := stringBody_of_plain (List.all_eq_true.1 (show modeHTML.all isPlain by
    decide +kernel))
  have hmode : Derives _ _ :=
    Derives.lastMember hblank hmodeName hblank hblank (Derives.str hmodeHTML) hblank
  have hrest : Derives _ _ :=
    Derives.member hblank htextName hblank hblank (Derives.str (stringBody_of_plain htext)) hblank
      hmode
  have hall : Derives _ _ :=
    Derives.member hblank hchatName hblank hblank (Derives.str (stringBody_of_plain hchat)) hblank
      hrest
  refine ⟨_, _, ⟨[], _, [], hblank, Derives.obj hall, hblank, ?_⟩, List.Perm.refl _⟩
  rw [toList_body, bodyStart_eq, bodyMiddle_eq, bodyEnd_eq]
  simp only [List.nil_append, List.append_nil, List.append_assoc, List.cons_append]

theorem plainText_testNotification : PlainText testNotification :=
  List.all_eq_true.1 (by decide +kernel)

/-- The test notification arrives. -/
theorem testNotification_says {cfg : TelegramConfig} (hchat : PlainText cfg.chatID) :
    BodySays (sendTelegram cfg testNotification).body cfg.chatID testNotification :=
  body_says_of_plain hchat plainText_testNotification

/-! ## Alerts -/

/-- Wherever the chat id leaves the automaton, the text begins inside of a string or nowhere: outside
of strings there is no `x`, and so none of the word `text`. -/
theorem run_to_text (σ : Lexing) :
    σ.run bodyMiddle = .inside ∨ σ.run bodyMiddle = .stuck := by
  cases σ with
  | outside => exact Or.inr (by decide +kernel)
  | inside => exact Or.inl (by decide +kernel)
  | escaped => exact Or.inr (by decide +kernel)
  | hex n =>
      -- A quote is no hexadecimal digit.
      rw [bodyMiddle_eq, Lexing.run_cons]
      exact Or.inr (Lexing.run_stuck _)
  | stuck => exact Or.inr (Lexing.run_stuck _)

/-- The first line of an alert stays inside of its string, and the newline behind it does not. -/
theorem run_telegramText (f : Firing) : Lexing.inside.run (telegramText f).toList = .stuck := by
  have hline : Lexing.inside.run
      ("🚨 PGAIO [" ++ Go.toUpperAscii f.level.text ++ "]\n").toList = .stuck := by
    cases f.level <;> decide +kernel
  unfold telegramText
  rw [String.toList_append, Lexing.run_append, hline, Lexing.run_stuck]

/-- The body of an alert is no JSON text. -/
theorem not_describes_alert (cfg : TelegramConfig) (f : Firing) (v : JSONValue) :
    ¬Describes (sendTelegram cfg (telegramText f)).body v := by
  intro h
  have hend := h.lex_eq
  have hstuck : Lexing.outside.run (sendTelegram cfg (telegramText f)).body.toList = .stuck := by
    rw [toList_body]
    simp only [Lexing.run_append]
    rcases run_to_text ((Lexing.outside.run bodyStart).run cfg.chatID.toList) with
      hinside | hstuck
    · rw [hinside, run_telegramText, Lexing.run_stuck]
    · rw [hstuck, Lexing.run_stuck, Lexing.run_stuck]
  rw [hstuck] at hend
  cases hend

/-- For no chat id and no alert the body says what it should. -/
theorem alert_body_never_json (cfg : TelegramConfig) (f : Firing) :
    ¬BodySays (sendTelegram cfg (telegramText f)).body cfg.chatID (telegramText f) := by
  rintro ⟨mode, ms, hdescribes, -⟩
  exact not_describes_alert cfg f _ hdescribes

def noBackups : Firing :=
  backupFiring .critical "No backups found" "none"

/-- The alert of a server without backups. -/
theorem missing_backup_body_no_json :
    ¬∀ (cfg : TelegramConfig) (f : Firing),
      BodySays (sendTelegram cfg (telegramText f)).body cfg.chatID (telegramText f) := by
  intro h
  obtain ⟨mode, ms, hdescribes, -⟩ := h { botToken := "token", chatID := "42" } noBackups
  exact not_describes_alert _ _ _ hdescribes

end Service
end Pgaio
