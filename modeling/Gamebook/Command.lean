import Gamebook.Value

/-!
The words of the language. Commands are either ordinary ones or transfer control to another
place; a name in neither table is unknown. Besides there are the words that cannot name a
variable, the commands that are followed by prose, and those that can stand before an option of a
choice.
-/

namespace Gamebook

/-- Whether a command is known, and whether it transfers control. -/
inductive CommandClass where
  | ordinary
  | flow
  | unknown
  deriving DecidableEq, Repr, Inhabited

namespace CommandClass

def name : CommandClass → String
  | ordinary => "Ordinary"
  | flow => "Flow"
  | unknown => "Unknown"

end CommandClass

namespace Command

/-- The commands that do not transfer control. -/
def ordinary : List String :=
  ["achieve", "achievement", "advertisement", "allow_reuse", "author", "bug", "check_achievements",
   "check_purchase", "check_registration", "choice", "comment", "config", "create", "delay_break",
   "delay_ending", "disable_reuse", "else", "elseif", "elsif", "end_trial", "fake_choice",
   "feedback", "hide_reuse", "if", "ifid", "image", "input_number", "input_text", "label",
   "line_break", "link", "link_button", "login", "looplimit", "more_games", "page_break", "params",
   "print", "product", "purchase", "purchase_discount", "rand", "reset", "restore_checkpoint",
   "restore_game", "restore_purchases", "save_checkpoint", "save_game", "scene_list", "script",
   "selectable_if", "set", "setref", "share_this_game", "show_password", "sound", "stat_chart",
   "subscribe", "temp", "text_image", "title", "youtube"]

/-- The commands that transfer control. -/
def flow : List String :=
  ["ending", "finish", "gosub", "gosub_scene", "goto", "goto_random_scene", "goto_scene", "gotoref",
   "redirect_scene", "restart", "return"]

/-- The words that cannot name a variable. -/
def reserved : List String :=
  ["and", "or", "modulo", "true", "false", "not", "round", "length", "log", "timestamp"]

/-- The commands whose arguments are prose. -/
def prose : List String :=
  ["author", "bug", "ending", "finish", "line_break", "page_break", "title"]

/-- The commands that can stand before an option on its line. -/
def optionModifiers : List String :=
  ["if", "selectable_if", "hide_reuse", "disable_reuse", "allow_reuse"]

/-- The commands that open the branches of a conditional. -/
def conditionals : List String := ["if", "elseif", "elsif", "else"]

/-- The class of a command. -/
def classify (name : String) : CommandClass :=
  if ordinary.contains name then .ordinary
  else if flow.contains name then .flow
  else .unknown

def isReserved (word : String) : Bool := reserved.contains word

def takesProse (name : String) : Bool := prose.contains name

def isOptionModifier (name : String) : Bool := optionModifiers.contains name

def isConditional (name : String) : Bool := conditionals.contains name

end Command

end Gamebook
