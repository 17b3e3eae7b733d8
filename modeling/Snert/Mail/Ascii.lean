/-
Module: Snert.Mail.Ascii
Purpose: The control characters that mail/mime.h names.
Trusted boundary: human-reviewed spec
Main exports: ASCII_TAB, ASCII_LF, ASCII_CR, ASCII_SPACE
-/
import Snert.CModel.CString

namespace Snert

open CModel

abbrev ASCII_TAB : Octet := 0x09
abbrev ASCII_LF : Octet := 0x0A
abbrev ASCII_CR : Octet := 0x0D
abbrev ASCII_SPACE : Octet := 0x20
abbrev ASCII_DEL : Octet := 0x7F

end Snert
