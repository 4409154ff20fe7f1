import Vyper.Text.CodeTable

/-!
# Directions of characters

The bidirectional classes of the characters that a host name can hold, outside ASCII: those that run
from right to left (R, AL), numbers (AN, EN), and those that take the direction of what is around
them (ES, CS, ET, ON, BN). Marks of the class NSM are in `MarkTable`, and a character in none of the
tables runs from left to right.
-/

namespace Vyper.Host.DirectionTable

def right : CodeTable := .ofText
  "nI 2 3 3 a-A k 3 2 e-L z-2 2-1C g-1 8-1 b-m 2-t u-1q c-V a-1 5 4-n 5 a 4 8-E 6-N h-F gaZ-w
   7c-10 2F Dr-4z 5-3C g-B b-2E 7-1c b-7N t-f v-x 3T-F 4-H E-17 c-M 5-1O eo2-3l 1l-x 8-gi"

def arabicNumber : CodeTable := .ofText
  "qk-9 2-1 huY-9 4L-u"

def europeanNumber : CodeTable := .ofText
  "sE-9 gM8-q"

def neutral : CodeTable := .ofText
  "2B-S w 7g-1 8-d 3-r 2-g 1U 25 6w-5 1V-1 2-1 2 2-1 1t 1S b 4l-3 89-1 8 3Y 4a-7 22-6 7f 43-3 hR-9
   1F aL-1 59 l-q 50-5 2t-x oZ-2V 15-1b Z-6T 18-p 2-cJ 2-5s 49-cn 3I-5 f-6 49-8k 4-o g 7 6-2 1z 1t
   3b-z 1R3-11 5Lr-S 5h-2 1C b-1 25-x 1F 2A-3 d-1 X-3 cb-1 5rR-h 24-M 18-1 bh 11-1e 4-g uX 8G-6
   kX-j oH-c CR-s 5k5 68m-c8 ch-1q 4 31-1o 12F Nj-9h 10-2 10 2T-DE"

end Vyper.Host.DirectionTable
