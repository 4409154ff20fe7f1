import Vyper.Text.CodeTable

/-!
# Cursive joining

How the letters of cursive scripts join: with both neighbours, with the one before or with the one
after. Marks are transparent, and so are a few more characters listed here.
-/

namespace Vyper.Host.JoiningTable

def dual : CodeTable := .ofText
  "pi 6-4/2 -3 5-c 2-6 2-1 A-1 a-e j-B 2-1 a-4/2 1 F-2 3 j-2 6-3 2-8 2-4/2 1 w-a 4-e 3-3 2 3-2 3-5
   1d-w 1p-4 3 2-9 2 b 2-3 3 u 3-4 2 h-9 6-1 3-5 2-e 10X p-1q f-x 2 9yS-N 6xV-4 f-3 2-4 2-2 b-3 2m
   2 4-2 2-1 2 3 t-1 5t-w 2 6I-1 2-1 1H-2 2-g d-2 t-3 3-b L 2-1 5 3-1 2-1 2 3 6 etq-x"

def before : CodeTable := .ofText
  "pk-3 2 2 6-3 m F-2 l-h D 3-8 2 2 3-1 2 p-1 x 5-4 5 a-4/2 3 u c-2 g-1 5 2-1 4-1 3d 6-1 2 b 2-2 f
   2-p c s-2 2 3-1 7 hbu-4/2 1 4-4 b 4 3 b 2m 2-2 4 3 2-1 2 o-3 62 6I 1P x w-1 11-2 3-1 3 5-1 6"

def after : CodeTable := .ofText
  "bdw 6y7 a 8V bx"

def transparent : CodeTable := .ofText
  "QD 7 hVL-1 99 dEE"

end Vyper.Host.JoiningTable
