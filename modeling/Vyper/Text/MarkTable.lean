import Vyper.Text.CodeTable

/-!
# Combining marks

The code points of the categories Mn, Me and Mc, apart in those that take no room of their own in a
line of text (the bidirectional class NSM) and those that do. Ranges run over code points that are
not assigned.
-/

namespace Vyper.MarkTable

def nonspacing : CodeTable := .ofText
  "co-1N 4s-6 4g-I 2 2-1 2-1 2 1b-a N-k h 1E-6 3-5 3-1 2-3 A v-q 1u-a X-8 a p-3 2-8 2-2 2-4 I-2
   Y-8 H-U U 2 5-7 5 4-6 b-1 u X 5-3 9 l-1 r-4 W 5-g v-1 4 c-1 W 5-7 5 l-1 n-7 X 3 2-3 9-9 c-1 v
   10 d P 4 U 2-2 6-g c-1 u X g-1 l-1 t-1 W-1 5-3 9 l-1 u 1b 8-4 1t 3-6 d-7 1B 3-8 c-6 1c-1 s-4/2
   U-d 2-4 2-1 6-L a 1F-3 2-5 2-1 3-1 q-1 5-2 h-3 e 3-1 7 g bm-2 fh-2 u-1 v-1 v-1 16-6 9 3-a a
   2I-1 z 1V-2 5-1 a 7-2 3y-1 3 X 2-8 2 3-7 7-c N-1l N 2-4 2 6 F-8 d-1 x-3 3-1 2-2 V 2-1 4 2-2 X-7
   3-1 2t-2 2-c 2-6 5 7 4-1 3d-11 bD-w Nx-2 2i 1z-v 8X-3 1K-1 7Qx-3 2-9 x-1 1j-1 4p 4 5 q-1 6 2s-1
   r-h e D-7 q-a L-2 N 3-3 3-1 E 16-5 3-1 3-1 d 9 M Q 2-2 3-1 6-1 2 H-1 9 3R 3 5 5gZ cq-f fI 3F
   2q-4 qX-e F-7 2G-1 9g-3 14-4 58-1 1g-5 19-a O-3 20 T-e G 3-1 b-2 O-3 3-1 8 10-2 B-4 2-7 11 d-1
   R-8 b-3 3 1y-2 3 2-1 7 3 2y 4-7 m-1 W-1 4 C-e 19-5 e-4/2 f-1 1o-7 3-2 2 o 1n-5 2 5-1 2-1 3R-3
   7-1 2-1 s-1 1o-7 3 2-1 1J 2 3-5 2 1E 2 3-3 2-4 4c-8 2-1 49-1 2 5 2l-7 5 x-5 3-1 F-5 3-3 9 a-5
   3-2 L-c 2-1 3d 2-2 2 3g-d 1n-l 3-6 2-1 2-1 1Z-k 2 1b-1 4 2 5C-1 c-1 R-4 6 2 o 1oi 7-e 2YV-b 4-2
   Eh-4 Y-6 gV 12-3 1k 56N-1 1dU-18 8N-2 i-7 3-6 v-3 2p-2 vW-S 5-N 9 f n-k lX-2j 2B-6 64 10-3 8d-3
   47-1 3W 3 8-1 6 7F-6 1M-6"

def spacing : CodeTable := .ofText
  "Bd U 3-2 9-3 2-1 P-1 X-2 7-5 b I X-2 15 X-2 9-3 S-1 X 2 7-5 b 1F-1 2-b b G-2 10-3 10-1 X-d a-1
   t f-1 X-2 6-6 b H-1 1e-2 7-7 j-1 5l-1 12 2M-1 5 7 3-1 q-1 b-2 3-6 m-1 3-5 3 b-2 qJ v 26 8-7 2-1
   5B-3 3-8 2-5 3D-1 X 2 a 2-1 9-5 2m N 6 2-4 2-1 10 v 5-1 3 Z 3-2 2 4-1 N-7 9-1 2M m 1hl-1 7Zi-1
   3 1r-1 P-f 2j-1 M N-1 5-1 3-2 1N-1 3-1 p K 2 1M 3-1 6 3Q-1 2-1 2-1 2 6Fe 2 24 K-2 5-1 1S p-1 Y
   N-2 a-1 e 1w-2 4-1 2 2L-2 w-1 X-1 2-c a b-1 1n-2 8-b 2 1E-2 9-1 4 1J-2 7 2-3 3 3Q-2 7-3 3 1Q-2
   9-1 2 1M 2-1 7 1G 2-1 5 4e-2 a 40-8 5 3 2 2j-2 9-3 5 z-1 N u-1 11 3g 4 2 3e f-1 1I 8 3 3s-4 5-1
   2 5F-1 d N-1 9-1 2 4o9-2 Wp-S 1H-1 6uo-1 7-5"

end Vyper.MarkTable
