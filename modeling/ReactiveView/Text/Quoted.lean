import ReactiveView.Text.Shown

/-!
# Quoted text

A text between double quotes for inspection. The backslash, the double quote
and four control characters have short escapes; any other character that is
not shown is written as its code point in hexadecimal between braces.
-/

namespace ReactiveView.Text

set_option autoImplicit false

def escapeLetter? (c : Char) : Option Char :=
  if c = '\x00' then some '0'
  else if c = '\t' then some 't'
  else if c = '\r' then some 'r'
  else if c = '\n' then some 'n'
  else if c = '\\' then some '\\'
  else if c = '"' then some '"'
  else none

def escaped (c : Char) : List Char :=
  match escapeLetter? c with
  | some letter => ['\\', letter]
  | none =>
      if isShown c then [c]
      else '\\' :: 'u' :: '\x7b' :: Nat.toDigits 16 c.toNat ++ ['\x7d']

def quoted (text : String) : String :=
  String.ofList ('"' :: text.toList.flatMap escaped ++ ['"'])

end ReactiveView.Text
