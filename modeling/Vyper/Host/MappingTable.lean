import Vyper.Text.CodeTable

/-!
# Characters of host names

What the characters outside ASCII become in an internationalized host name: most letters stay as
they are, capitals and compatibility forms are replaced, some characters vanish, and all that are
not listed here are refused.
-/

namespace Vyper.Host.MappingTable

/-- The characters that are not refused. -/
def known : CodeTable := .ofText
  "2A-bJ 3-5 5-6 2 2-j 2-6o 2-B 3-N 3-2 2-S 9-q 5-5 i-l 2-35 2-L 3-W 3-1C f-W 3-M 3-e 2-r 3 2-a
   6-v 8-1c 2-2A 2-7 3-1 3-l 2-6 2 4-3 3-8 3-1 3-3 9 5-1 2-4 3-o 3-2 2-5 5-1 3-l 2-6 2-1 2-1 2-1 3
   2-4 5-1 3-2 4 8-3 2 8-g b-2 2-8 2-2 2-l 2-6 2-1 2-4 3-9 2-2 2-2 3 g-3 3-b 8-6 2-2 2-7 3-1 3-l
   2-6 2-1 2-4 3-8 3-1 3-2 8-2 5-1 2-4 3-h b-1 2-5 4-2 2-3 4-1 2 2-1 4-1 4-2 4-b 5-4 4-2 2-3 3 7
   f-k 6-c 2-2 2-m 2-f 3-8 2-2 2-3 8-1 2-2 2-1 3-3 3-9 8-l 2-2 2-m 2-9 2-4 3-8 2-2 2-3 8-1 6-2 2-3
   3-9 2-2 d-c 2-2 2-O 2-2 2-5 5-f 3-p 2-2 2-h 4-n 2-8 2 3-6 4 5-5 2 2-7 7-9 3-2 d-V 5-s C-1 2 2-4
   2-n 2 2-m 3-4 2 2-6 2-9 3-3 x-19 2-z 5-C 2-z 2-e 2-c C-3b 2 6 3-64 2-3 3-6 2 2-3 3-E 2-3 3-w
   2-3 3-6 2 2-3 3-e 2-U 2-3 3-14 3-v 4-p 7-1n 3-5 3-aj 2-r 4-1q 8-l a-n a-j d-c 2-2 2-1 d-1v 3-9
   7-9 7-p 7-1q 8-G 6-17 b-u 2-b 5-b 5 4-F 3-4 c-H 5-p 7-a 4-Z 3-12 2-s 3-a 7-9 7-d 3-J 3-b l-1e
   2-2F 9-X 4-e 4-Z 6-G 3-a 9-G 6-8B 3-5 3-B 3-5 3-7 2-6/2 -t 3-Q 2-e 2-d 3-5 2-i 3-2 2-8 2-d 3-j
   4 8-R 6-7 3-q 2-c 4-x f-w g-2f 5-aJ n-a m-D l-sf 3-69 6-I 2 6 3-T 8-1 f-n a-6 2-6 2-6 2-6 2-6
   2-6 2-6 2-6 2-21 z-p 2-1q d-3r H-11 2-1n 3-1E 6-G 2-1v 2-1n b-K 2-6J 2-3 2-f 2-7vl 4-S a-5B
   l-2X 9-3y l-X 4-9 7-T 9-17 9-b 7-1R c-t 4-1f 2-a 5-w 2-S a-d 3-9 3-1E p-r b-5 3-5 3-5 a-6 2-6
   2-X 5-21 3-9 7-2Ub d-m 5-M 2cl-5T 3-1H D-6 d-4 6-p 2-4 2 2-1 2-1 2-at x-x 2-5 8-f 2-w 3-i 2-3
   5-4 2-2a 3 2-33 4-5 3-5 3-5 3-2 4-6 2-6 i-b 2-p 2-i 2-1 2-e 3-d z-1Y 6-2 5-I 4-1p 2-c 4 M-J
   27-s 4-M g-r 5-z a-t 6-G 6-t 2-A 5-d H-2x 3-9 7-z 5-z 5-D 9-P c-b 2-e 2-6 2-1 2-a 2-e 2-6 2-1
   4-P d-50 a-l b-7 p-5 2-F 2-8 18-5 3 2-H 2-1 4 3-m 2-19 9-8 N-i 2-1 6-w 4-q 6-q D-T 5-j 3-N 2-1
   6-7 2-2 2-s 3-2 5-9 8-8 8-11 x-C 5-b a-R 4-s 3-q 6-p 8-3 d-6 1j-1a U-O e-O 8-J 9-9 7-B 4-s 9-1
   3n-u 2-F 2-2 3-1 h-5 9-8 y-J 9-F n-p D-r l-m a-1f 5-z a-Z 2-4 e-o 8-9 7-Q 2-h 9-C a-1x 2-j c-h
   2-K 11-6 2 2-3 2-e 2-a 7-W 6-9 7-3 2-7 3-1 3-l 2-6 2-1 2-4 2-9 3-1 3-2 3 7 6-6 3-6 4-4 c-9 2 3
   2-B 2-9 2 3 2-3 2-9 2-1 9-1 u-1t 2-4 v-19 9-9 2H-R 3-B z-16 c-9 7-c k-V 7-9 7-j t-q 3-e 5-m
   30-X 1D-1k d-7 3 3-7 2-1 2-t 2-1 3-b a-9 19-7 3-J 3-a s-19 9-1k e-1a 8-9 1p-7 1r-x f-9 7-8 2-I
   2-d b-s 4-v 3-l 2-d 1c-6 2-1 2-H 4 2-1 2-8 9-9 7-5 2-1 2-A 2-1 2-5 8-9 7-H 5-9 3Z-o 8-g 2-E 4-s
   1o g-N e-eS 1F-1M 2-4 c-39 Gx-1A e-hh h-l b-12q 6-9o 1Mm-V rZ-9a 8-u 2-9 5-1i 2-9 7-t 3-5 b-17
   b-9 2-6 2-k 6-i 6Z-V 3d-1s 6-o 3-o J-1c 5-U 8-g 13-4 c-6 a-1V3 G-v 1A-1Q 2gm-3 2-6 2-1 2-4G g
   u-2 3 f-3 9-6n Bf-1I 6-c 4-8 8-9 3-7 11r-44 4-71 7-m g-g g-J 3-m a-1R Z-3X b-C 3-37 m-17 1Z-j
   d-j d-1o a-o 2c-1m 2-18 2-1 3 3-1 3-3 2-b 2 2-6 2-12 2-3 3-7 2-6 2-r 2-3 2-4 2 4-6 2-5t 3-4H
   3-bj g-4 2-e hP-u 7-5 3s-6 2-g 3-6 2-1 2-4 6-Z y 1P-I 4-d 3-9 5-1 5b-u i-V 6 7v-F 3t-G 5 37-u
   2-l 9-1 3D-6 2-3 2-1 2-e 2-3a 3-f G-1d 5-9 5-1 cG-15 1f-Y 39-3 2-q 2-1 2 3 2-9 2-3 2 2 7 5-6/2
   -1 2-1 2 3-a/2 1 2 3-3 2-6 2-3 2-3 2 2-9 2-g 6-2 2-4 2-g R-1 4n-H 5-1B d-e 3-e 2-e 2-A c-2M V-s
   e-H 5-8 8-1 f-5 2v-fS 4-g 4-c 4-3v 7-b 5 g-b 5-T 9-9 7-D 9-t 3-b 5-1 f-8 E-5x 9-d 3-c 4-a 4-U 2
   5-f 3-b 5-9 8-2m 2-1E gC-b71 x-18F 3-1v7 3-1Ww g-a1 DN-8J oj-1hE 6-2cV 2Y6P-3R"

/-- The characters that vanish. -/
def ignored : CodeTable := .ofText
  "2N aS W4-1 q8-1 1o-4 wY 1n-4 6-5 181 dCQ-f 3S 2B cAo-3 1nW-7 3lKC-3R"

/-- The characters that stand for others. -/
def replaced : CodeTable := .ofText
  "2A>w 8>w+cw 2>1z 5>w+cs 3-1>O>w+cp>fq 3>w+d1>N>1N 2>N+29e+Q>N+29e+O>P+29e+Q 2-m>3C 2-6>40
   y-K/2>49 2>1H+cv 2>1H+1I>1H+1I>4Z 2>51 3-4/2>54 2>1K+2X>1K+2X -6/2>5c 2>bi+1M -I/2>5l 2>47
   -4/2>66 2>1R 2>9B>6f 2>6h 2>9C>6k 2-1>9E>6o 3>7H>9H>9J>6u 2>9O>9R 2>9X>9W>6B 4>a3>a6 2>a9
   -4/2>6J 2>ak>6Q 2>an 3>6V 2>as>6Y 2-1>au>72 2>74 2>aC>77 4>7b 8>1C+6a>1C+6a>1C+6a>1K+1I>1K+1I
   >1K+1I>1M+1I>1M+1I>1M+1I -e/2>7s 3-g/2>7J 3>1C+1Y>1C+1Y>1C+1Y>85 2>6x>7d -C/2>89 2>6G 2-g/2>8P
   8>2Xj>9e 2>6C>2Xk 3>9k 2>6c>at>aw -8/2>9p 1A>1G>9U>1I>1Q>ad>af>al>1V>1X w>w+cu>w+cv>w+cy>w+d2
   >w+cr>w+cz 3>9R>1K>1R>1W>aF 1u-1>co 2>cH>cw+cp>fn H>ed 2>ef 2>bf 2>ej 4>w+fn 4>X>gj 5>w+cp
   >w+cw+cp>fa>2X -2>fb 2>fG 2-1>fH 2-g>ff 2-8>fx A>fR>fg>fm>fz>fH>fF>fA>fu 2-m/2>fT 2>fo>fv>fx
   2>fm>fj 2>go 2>fx>gr 3-2>en -f>hO -v>hi N-w/2>i5 a-Q/2>iL 2>jR -c/2>jE 3-1w/2>jT 3-B>md N>mh+mK
   3Q>pp+qE>pW+qE>rZ+qE>pY+qE bS>Bv+C8>Bw+C8>Bx+C8>BC+C8>BH+C8>BI+C8>BR+C8>BV+C8 21>DL+Ec>DM+Ec
   2>DZ+Ec 1m>G6+Gg 3>Gc+Gg z>FE+Gg>FF+Gg>FK+Gg 3>FZ+Gg 46>JX+Ko>JY+Ko bI>X3+WC 24>Z7+YG F>Yz+Yh
   >Yz+Yp L>107 T>110+12T a>11a+12T 5>11f+12T 5>11k+12T 5>11p+12T d>10Y+12R a>11L+11M 2>11L+11O
   >12O+120>12O+11L+120>12P+120>12P+11L+120 8>11L+120 i>12i+12T a>12s+12T 5>12x+12T 5>12C+12T
   5>12H+12T d>12g+12R 3J-B>2ZO 2>30r 6>30x L>17C ck-5>1kk z9>hk>hm>hw -1>hz>hA>hI>i7>b4D>1TQ
   7-G>17q 3-2>189 1L>1z>3I>1A 2-1>1C>7H -7>1F 2>1N>8P>1O>1Q -1>1S>1V>1z -1>9y>1VM>1A -1>1C>9H
   -1>9J>1F 2>1J>1L>5l>1N>9C -1>1W6>1O -1>1S>1Wd>a3>1U>1Wl -2>fg -1>fA>1H>1Q -1>1T -1>fg>fv -1>fA
   e>hv z>9A>1B>9D>3S>9K>1E>9N>9P>9T -2>9W>1XJ>aN>a1>1XT>aP>a5>a4 -3>a6>ac -1>am>6T -1>at>1Wc
   -1>av>1Y -2>aA>fm 13-2o/2>1ZT 6>1z+bk>21r 3>3B 2-1w/2>22t a-7>240 9-5>24g b-7>24w 9-7>24M
   9-5>252 c-6/2>25j 9-7>25y 2>fa 2>fb 2>fc 2>fd 2>fG 2>fH 2>fI 3>240+fn>241+fn>242+fn>243+fn
   >244+fn>245+fn>246+fn>247+fn>240+fn>241+fn>242+fn>243+fn>244+fn>245+fn>246+fn>247+fn>24w+fn
   >24x+fn>24y+fn>24z+fn>24A+fn>24B+fn>24C+fn>24D+fn>24w+fn>24x+fn>24y+fn>24z+fn>24A+fn>24B+fn
   >24C+fn>24D+fn>25y+fn>25z+fn>25A+fn>25B+fn>25C+fn>25D+fn>25E+fn>25F+fn>25y+fn>25z+fn>25A+fn
   >25B+fn>25C+fn>25D+fn>25E+fn>25F+fn 3>25O+fn>ff+fn>fa+fn 3>26W+fn -1>26Q>25O>fa>ff+fn>w+cH>fn
   >w+cH>w+ds>w+cw+ds>25S+fn>fl+fn>fc+fn 3>27c+fn>25Q>fb>25S>fc>fl+fn>w+cH+co>w+cH+cp>w+cH+ds 4>eI
   5-1>27m>25U>fd 2>w+cI+co>w+cI+cp>w+cI+ds 4>fe 5-1>27C>25Y>fH>27H>w+cw+co>w+cw+cp>1y 3>260+fn
   >fD+fn>fI+fn 3>27Y+fn>25W>fG>260>fI>fD+fn>w+cp>w+cI 2>w>w>w>w>w>w>w>w>w>w>w 7>28o 6>w+dd o>w
   4>28W+28W>28W+28W+28W 2>28Z+28Z>28Z+28Z+28Z 5>x+x 2>w+ct 9>11+11>11+x>x+11 e>28W+28W+28W+28W
   8>w h>M>1H 3-5>Q>H>2gG>Z -1>E>1M -9>M>H>2gG>Z -1>E 2>1z>1D>1N>1W>9H>1G -3>1J>1O -1>1R c>1Q+1R
   1q>1z+L+1B>1z+L+1R>1B>2Q+1B 2>1B+L+1N>1B+L+1T>9J 2>2Q+1E -1>1F>1G>1G>1G>4L>1H>1H>1K>1K 2>1M
   >1M+1N 3-2>1O>1Q>1Q 3>1R+1L>1S+1D+1K>1S+1L 2>1Y 2>fD 2>1Y 2>1J>3H -1>1A 2>1D -1>1D>2dw>1L>1N
   -3>o0>1H 2>1E+1z+1W>fu>fh>fh>fu>2gF 5>1C -1>1C -1>1H 7>N+29e+T>N+29e+V>N+29e+N+M>N+29e+P
   >O+29e+P>N+29e+R>O+29e+R>P+29e+R>Q+29e+R>N+29e+S>R+29e+S>N+29e+U>P+29e+U>R+29e+U>T+29e+U>N+29e
   >1H>1H+1H>1H+1H+1H>1H+1U>1U>1U+1H>1U+1H+1H>1U+1H+1H+1H>1H+1W>1W>1W+1H>1W+1H+1H>1K -1>1B>1L>1H
   >1H+1H>1H+1H+1H>1H+1U>1U>1U+1H>1U+1H+1H>1U+1H+1H+1H>1H+1W>1W>1W+1H>1W+1H+1H>1K -1>1B>1L 4>2eo
   6>M+29e+P 2D>2h5+2h5>2h5+2h5+2h5 2>2h8+2h8>2h8+2h8+2h8 41-1>3ck 50-8>N>N+M>N+N>N+O>N+P>N+Q>N+R
   >N+S>N+T>N+U>N+V>O+M>E+N+F>E+O+F>E+P+F>E+Q+F>E+R+F>E+S+F>E+T+F>E+U+F>E+V+F>E+N+M+F>E+N+N+F
   >E+N+O+F>E+N+P+F>E+N+Q+F>E+N+R+F>E+N+S+F>E+N+T+F>E+N+U+F>E+N+V+F>E+O+M+F l>E+1z+F>E+1A+F>E+1B+F
   >E+1C+F>E+1D+F>E+1E+F>E+1F+F>E+1G+F>E+1H+F>E+1I+F>E+1J+F>E+1K+F>E+1L+F>E+1M+F>E+1N+F>E+1O+F
   >E+1P+F>E+1Q+F>E+1R+F>E+1S+F>E+1T+F>E+1U+F>E+1V+F>E+1W+F>E+1X+F>E+1Y+F -p>1z -p>1z>M
   lc>2h5+2h5+2h5+2h5 1G>W+W+Z>Z+Z>Z+Z+Z 1E>2QZ+di 4I-L>2Ws N>2Xf 2>9Z>1XL>ah 3-4/2>2Xm 2>9z>a5>9y
   >9A 2>2Xx 3>2XA 7>1I>1U -1>9h -1A/2>2XL 9>2Zu 2>2Zw 5>2ZB 21>31n 4U>7b7 1m>aD5 d>5c4>5cI>5cW
   >5d5>5dv>5ed>5ek>5eE>5f4>5pt>5q5>5qb>5qy>5qS>5rd>5s4>5sp>5sA>5v5>5wB>5x3>5x8>5xC>5xL>5yc>5yp
   >5yO>5zE>5zW>5An>5Mz>5NJ>5V9>5Vw>5VE>5VP>5W7>5Xl>652>65O>67K>687>68q>68M>69E>69H>6fx>6fH>6fT
   >6g6>6hY>6i6>6ib>6k4>6ke>6kr>6kz>6ly>6lP>6m7>6np>6wM>6xw>6xR>6JN>6JS>6Ld>6Lt>6LG>6M1>6ME>6MJ
   >6R2>6Rq>6RW>78k>79o>79L>7aH>7b5>7be>7bl>7cb>7cg>7cM>7ub>7Bo>7BA>7BF>7BJ>7BR>7C9>7Cb>7Du>7GY
   >7H3>7Mw>7MG>7Nu>7NB>7NK>7NS>7Pl>7Ps>7T8>7Tf>7U2>7Uj>7V4>7YT>7Z0>7Zh>84y>86A>86G>89C>8b1>8bL
   >8hR>8k0>8tg>8tH>8uC>8vr>8wx>8wI>8wO>8xl>8yz>8yJ>8Ej>8Eq>8Ez>8EI>8EY>8Fd>8Fh>8Gy>8GC>8GI>8Wx
   >8X1>94A>94M>959>99I>99V>9b4>9bO>9kX>9lc>9lr>9m0>9mB>9pO>9q0>9r5>9v5>9vA>9yX>9zi>9zn>9CV>9FT
   >9HU>9I0>9I5>9X9>9Xi>9ZO>a2i>a2l>a36>a4N>a50>a54>a5b>a6L>a7j>a7p>a7D>aak>ab9>abd>aea>aed>aew
   >aiA>ajm>ajt>akB>akL>akO>akY>als>arP>ayh>ayr>az3>azp>azx>azH>azL>aAp>aAt>aAK>aAP>aB2>aBt>aBI
   >aBQ>aCN>aD2>aD6 H>w 2>K Q>3cu 2>5xL -1>5xO 1z>w+3eF>w+3eG 3>3eo+3eq 1y>3f5+3fq O-1>18c>1aW>18e
   -1>1aY -2>18f -5>1b2>18C -2>18i>18J -9>18l -k>19L 2-1>18w -1>1bp>1bu>1bw>1bB>1bF>1bH>18E>1bL
   >1bN -1>18F>18I -1>18K>18P>18R -4>18T>190>194>19e>19l>19q -1>1c5 -2>19B -1>1ak>1ao -1>1ax>1aA
   >1aK>1aN 4>5c4>5ek>5cd>5MD>5ce>5cN>5cf>7NU>5dv>5ct>5c5>5W9>5O0>5f4 1z>E+18c+F>E+18e+F>E+18f+F
   >E+18h+F>E+18i+F>E+18j+F>E+18l+F>E+18n+F>E+18o+F>E+18q+F>E+18r+F>E+18s+F>E+18t+F>E+18u+F
   >E+bsc+F>E+bLa+F>E+bUE+F>E+cdC+F>E+cn6+F>E+cwA+F>E+cPy+F>E+d8w+F>E+di0+F>E+dAY+F>E+dKs+F
   >E+dTW+F>E+e3q+F>E+ecU+F>E+dnS+F>E+dc8+djS+F>E+dc8+eiM+F 2>E+5c4+F>E+5ek+F>E+5cd+F>E+5MD+F
   >E+5es+F>E+5qd+F>E+5c7+F>E+5qb+F>E+5dz+F>E+5xL+F>E+6Rq+F>E+7ub+F>E+7cM+F>E+6RW+F>E+9I5+F
   >E+5NJ+F>E+6MJ+F>E+6W6+F>E+6Rr+F>E+84C+F>E+5B3+F>E+7CF+F>E+9mF+F>E+857+F>E+5vu+F>E+5fJ+F
   >E+5CQ+F>E+65o+F>E+7UT+F>E+5gd+F>E+9nh+F>E+5y4+F>E+85n+F>E+5gt+F>E+8Eq+F>E+8Ez+F>5Gf>6i8>6Ld
   >8eb 9>1O+1S+1D>O+N>O+O>O+P>O+Q>O+R>O+S>O+T>O+U>O+V>P+M>P+N>P+O>P+P>P+Q>P+R>18c -1>18e -2>18h
   >18l -1>18n -4>18q>bsc>bLa>bUE>cdC>cn6>cwA>cPy>d8w>di0>dAY>dKs>dTW>e3q>ecU>dBe+bvO>dnS+dh6>deo
   2>5c4>5ek>5cd>5MD>5es>5qd>5c7>5qb>5dz>5xL>6Rq>7ub>7cM>6RW>9I5>5NJ>6MJ>6W6>6Rr>84C>5B3>7CF>9mF
   >857>5vu>876>7NZ>5Xl>9Ch>5p8>5yw>7fG>a7H>5gt>5qV>79p>5ce>5cN>5cf>6fI>5AD>5xF>66b>65o>7UT>5gd
   >9nh>5y4>5VW>P+S>P+T>P+U>P+V>Q+M>Q+N>Q+O>Q+P>Q+Q>Q+R>Q+S>Q+T>Q+U>Q+V>R+M>N+6Rq>O+6Rq>P+6Rq
   >Q+6Rq>R+6Rq>S+6Rq>T+6Rq>U+6Rq>V+6Rq>N+M+6Rq>N+N+6Rq>N+O+6Rq>1G+1F>1D+1Q+1F>1D+1U>1K+1S+1C>3eO
   >3eQ>3eS>3eU -1>3eW>3eZ>3f1>3f3>3f5>3f7>3f9>3fb>3fd>3ff>3fh>3fj>3fm>3fo>3fq -5>3fs>3fA>3fD>3fG
   >3fJ -4>3fM>3fS>3fU -5>3fW -3>3g3>5fK+5D6>3eO+3fz+3gg+3fq>3eO+3fZ+3fD+3eN>3eO+3g7+3fI+3eO
   >3eO+3gg+3fZ>3eQ+3ft+3g7+3f2>3eQ+3g7+3fj>3eS+3eV+3g7>3eU+3fb+3f1+3gg+3fr>3eU+3gg+3eX+3gg
   >3eW+3g7+3fb>3eW+3gg+3fO>3eX+3eQ+3fY>3eX+3fX+3fl+3fq>3eX+3g1+3fY+3gg>3eY+3g1+3g7>3eY+3g7+3fM
   >3f0+3eY>3f0+3ft+3gg>3eZ+3fT+3fY+3gg>3f0+3fZ+3fi+3gg>3eZ+3g1>3eZ+3g1+3f2+3fX+3fO
   >3eZ+3g1+3fP+3gg+3fq+3fZ>3eZ+3g1+3g3+3fl+3fq>3f2+3fX+3fO>3f2+3fX+3fO+3fq+3g7
   >3f1+3fZ+3fe+3eQ+3g1>3f1+3g1+3gg+3fv>3f3+3gg+3fb>3f5+3fZ+3fs>3f5+3gg+3fL>3f7+3eQ+3f1+3fZ
   >3f7+3g7+3fj+3gg+3fO>3f9+3fY+3g7+3f2>3fd+3g7+3fj>3fd+3g7+3fq>3fi+3gg+3fb>3fp+3f9>3fr+3fZ
   >3fq+3g7>3fs+3fw>3fw+3fl+3fq>3fx+3eQ+3fm>3fz+3gg+3fd+3g7+3fq>3fz+3gg+3fm>3fy+3gg+3g0+3fZ
   >3fC+3eO+3fb+3fq+3fZ>3fC+3f1+3fZ>3fC+3f5>3fB+3fZ>3fD+3eN+3fX+3fl+3fr>3fD+3eP+3gg+3fq
   >3fE+3fl+3f9+3eT+3fZ>3fD+3fX+3g7>3fG+3f1+3fh+3gg+3fZ>3fI+3ff>3fI+3ft+3fA>3fG+3fZ+3fm
   >3fI+3g7+3fb>3fI+3gg+3fa>3fH+3gg+3fh>3fL+3eQ+3g7+3fq>3fK+3fZ+3fq>3fJ+3g7>3fL+3g7+3fr
   >3fJ+3gg+3fZ>3fJ+3gg+3g7>3fM+3eQ+3f1+3g1>3fM+3eQ+3fZ>3fM+3fl+3fx>3fM+3fZ+3f1
   >3fM+3g7+3f9+3fV+3g7>3fN+3f1+3g1+3g7>3fN+3fY>3fN+3fY+3fy+3gg+3fZ>3fP+3eY>3fP+3eY+3fq+3g7
   >3fP+3gg+3fq+3fZ>3fS+3gg+3fr>3fS+3gg+3fZ>3fU+3eO+3g7>3fY+3fl+3fq+3fZ>3fY+3fX>3fZ+3fC+3gg
   >3fZ+3gg+3fE+3fZ>3g0+3fO>3g0+3g7+3fq+3f4+3g7>3g3+3fl+3fq>M+7vr>N+7vr>O+7vr>P+7vr>Q+7vr>R+7vr
   >S+7vr>T+7vr>U+7vr>V+7vr>N+M+7vr>N+N+7vr>N+O+7vr>N+P+7vr>N+Q+7vr>N+R+7vr>N+S+7vr>N+T+7vr
   >N+U+7vr>N+V+7vr>O+M+7vr>O+N+7vr>O+O+7vr>O+P+7vr>O+Q+7vr>1G+1O+1z>1C+1z>1z+1T>1A+1z+1Q>1N+1U
   >1O+1B>1C+1L>1C+1L+O>1C+1L+P>1H+1T>6hZ+6wU>6NT+5D6>5W7+79p>6No+7eX>6W6+6kv+5gC+84C>1O+1z>1M+1z
   >fq+1z>1L+1z>1J+1z>1J+1A>1L+1A>1F+1A>1B+1z+1K>1J+1B+1z+1K>1O+1E>1M+1E>fq+1E>fq+1F>1L+1F>1J+1F
   >1G+1Y>1J+1G+1Y>1L+1G+1Y>1F+1G+1Y>1S+1G+1Y>fq+1K>1L+1K>1C+1K>1J+1K>1E+1L>1M+1L>fq+1L>1L+1L
   >1B+1L>1J+1L>1L+1L+O>1B+1L+O>1L+O>1J+1L+O>1L+1L+P>1B+1L+P>1L+P>1J+1L+P>1L+2gJ+1R>1L+2gJ+1R+O
   >1O+1z>1J+1O+1z>1L+1O+1z>1F+1O+1z>1Q+1z+1C>1Q+1z+1C+2gJ+1R>1Q+1z+1C+2gJ+1R+O>1O+1R>1M+1R>fq+1R
   >1L+1R>1O+1U>1M+1U>fq+1U>1L+1U>1J+1U>1L+1U>1O+1V>1M+1V>fq+1V>1L+1V>1J+1V>1L+1V>1J+fD>1L+fD
   2>1A+1P>1B+1B>1B+1C>1B+2gJ+1J+1F 2>1C+1A>1F+1X>1G+1z>1G+1O>1H+1M>1J+1J>1J+1L>1J+1S>1K+1L>1K+1M
   >1K+1N+1F>1K+1W>1L+1A>1L+1H+1K>1L+1N+1K>1O+1G 2>1O+1O+1L>1O+1Q>1R+1Q>1R+1U>1V+1A>1U+2gJ+1L
   >1z+2gJ+1L>N+6MJ>O+6MJ>P+6MJ>Q+6MJ>R+6MJ>S+6MJ>T+6MJ>U+6MJ>V+6MJ>N+M+6MJ>N+N+6MJ>N+O+6MJ
   >N+P+6MJ>N+Q+6MJ>N+R+6MJ>N+S+6MJ>N+T+6MJ>N+U+6MJ>N+V+6MJ>O+M+6MJ>O+N+6MJ>O+O+6MJ>O+P+6MJ
   >O+Q+6MJ>O+R+6MJ>O+S+6MJ>O+T+6MJ>O+U+6MJ>O+V+6MJ>P+M+6MJ>P+N+6MJ>1F+1z+1K 7BL-I/2>b4t k-q/2>b5v
   2>hI>hK 29-c/2>b87 4-Y/2>b8n 2>b9l 9>b9w 2>b9y 2>1XH -8/2>b9B 5>b9O 2>9T 3>b9T 2>b9V 4-i/2>b9Z
   2>9U>9K>9P>a0>9Y 2>aO>ar>aN>bpp -e/2>bat 2>b9W>am>1Y2>baM 2>baO 2>9S -e/2>baR 2>6D l>1R>1B>1E
   >1P>bbw 3>4L>5t dZ>b8b>boX>9Z>bpo a>ax 7-1h>1j2 58Z>9le>6R6>9vA>9ni>7nz>5cS>5Ap>aD2>aD2>5WN>9I5
   >5H9>5WE>6wu>7SV>8ux>8Wj>92q>97y>9CT>73I>7gv>7vX>7Iq>8O1>9Gq>afD>5ea>5yB>77S>7B9>8W1>awS>6di
   >7s7>8Ut>99i>6zT>8E8>943>6jo>6RF>7hM>7EM>9DU>5im>5rp>5wa>6I4>775>7AY>7UX>8wx>8Vo>8WM>9s3>a4i
   >alN>awi>81K>85F>8mI>8M9>9N2>ayr>9fg>5UX>6kk>8hy>8yy>7Ci>82K>9nc>a3l>5UQ>69s>73Z>7jA>7oz>8kT
   >8p9>a0z>5vY>8yL>5s0>5rK>88c>8nc>8MN>a1f>9i0>6zZ>73I>9fU>5cZ>67t>6oG>7H1>7OU>5x5>83x>5jh>6mZ
   >5ch>7fe>6KY>8kG>5zR>5SS>7Vn>8Od>9ey>7aO>9zi>7e8>6AK>8It>6Dm>7OJ>5eS>5q9>5rH>6Xv>8jJ>8Gz>9fc
   >9I3>5wx>5BU>5Xl>6jW>6Md>7sq>84i>9Y1>ahA>ayP>azI>5v5>6Qm>79J>9y2>6i0>6uQ>6wE>6Ho>7oT>7xL>7Lb
   >86S>8o4>8yj>9x4>8QS>9B9>9Oa>5sX>5vd>5DT>7vG>96G>9ey>6jn>6od>6CL>7aC>8h0>7GJ>5fK>5N7>67t>6f0
   >6oQ>7HI>7KF>8uS>8xE>9JG>a3k>a4E>a80>5ir>86q>9HC>a2k>6s1>5ee>5nQ>67A>68T>6Lv>73I>7zU>7Si>8R6
   >9CA>aCN>6Pm>a06>5uN>6Th>6Vd>7h7>7mI>7J7>7Ox>81d>8ko>a98>5qd>6xo>a1i>5l1>6cp>7jQ>9x8>6mv>6tC
   >6VN>7H1>a1w>5tf>5B5>69v>6Nt>6Sy>6Y8>7fD>7J4>7QK>8ul>96T>97b>9I0>a30>5xJ>7nc>5Bj>7zW>7Lq>8Vc
   >a1Z>apx>ayX>6TJ>7jl>8Eo>8b1>8co>8im>7DO>7uV>9hm>5fa>8JM>5tw>5sH>6iO>6A3>8js>65T>7gy>6Q4>9xp
   >94M>a0B>99V>6jx>5pu>5I4 3>5SO 2>6P2 3>5s2>7Fw>7Uu>84A>858>85f>85V>a4S>8j4>8vr 2>8VA 2>9fO
   3>9Bu>9EF 4>abt>abG>aco>ava>9Ea>a2j>5j0>5o3>5pH>5vP>5wg>5y1>5Hv>5Jc>5KM>5So>5U4>69u>69E>6qM>6uc
   >6uO>6wq>6Kj>6MG>6Pv>6Xz>7hZ>7kC>7oS>7ym>7Bp>7Jw>81P>84C>84N>84M>84U>850>857 -1>85T>88M>89P>8eY
   >8o4>8op>8pj>8ue>8wB>8Et>8GJ>8GJ>8Or>97W>9a6>9fX>9gR>9nt>9ok>9zo>9Bu>a31>a7B>a8z>6qh>Cyq>8Fa
   3>5cG>5rn>5q8>5ig>5pz>5qw>5vN>5wC>5Hv>5Gl>5Hr>5IC>5SO>5Uf>5WA>5WQ>61c>64o>6jw>6jD>6lX>6n3>6rS
   >6tM>6sE>6uO>6u4>6wq>6xu>6DW>6Fm>6Ge>6Kq>6P2>6RF>6RJ>6SG>79L>7aO>7h7>7nJ>7nt>7oS>7sW>7ym>7Y3
   >7Bz>7Dx>7Fw>7KN>7Nc>7O3>7RH>7RJ>7Uu>7UL>7Va>7Wy>7Wo>82M>8aB>8eY>8hZ>8lB>8o4>8to>8wB>8Ke>8ML
   >91n>98J>99Q>9a6>9eT>9fO>9f5>9fX>9fU>9fD>9gR>9ia>9ok>9xm>9Cq>9Hb>9KK>a1m>a31>a4S>a71>a7B>a7N
   >a8z>aki>aD2>AMq>AMk>By5>3Y9>4gE>4hb>DzP>Ehi>GxJ>aBB>aCO D>1E+1E>1E+1H>1E+1K>1E+1E+1H>1E+1E+1K
   >1R+1S>1R+1S d>mw+my>mw+mh>mw+mn>mG+my>mw+mp 6>o9+ny 2>oy+nB>oi>o0 -1>o3 -2>ob>oo>oq>H>op+nL
   >op+nM>op+nG+nL>op+nG+nM>o0+nB>o0+nC>o0+nG>o1+nG>o2+nG>o3+nG>o4+nG>o5+nG>o6+nG 2>o8+nG>o9+nG
   >oa+nG>ob+nG>oc+nG 2>oe+nG 2>og+nG>oh+nG 2>oj+nG>ok+nG 2>om+nG>on+nG>oo+nG>op+nG>oq+nG>o5+nD
   >o1+nJ>ob+nJ>ok+nJ>o0+oc>qB>qB>qL>qL>qL>qL>qO>qO>qO>qO>qQ>qQ>qQ>qQ>qK>qK>qK>qK>qP>qP>qP>qP>qJ
   >qJ>qJ>qJ>rq>rq>rq>rq>rs>rs>rs>rs>qU>qU>qU>qU>qT>qT>qT>qT>qW>qW>qW -1>qW>qX>qX>qX>r3>r3>r2>r2
   >r4>r4>qY>qY>re>re>r7>r7>rv>rv>rv>rv>rB>rB>rB>rB>rF>rF>rF>rF>rD>rD>rD>rD>rM -1>rM>rN>rN>rN>rS
   -1>rS>rT>rT>rT>rQ>rQ>rQ>rQ>sa -1>sa>sb y>rz>rz>rz>rz>rZ>rZ>rY>rY>s0>s0>rZ+qE>s3>s3>rX>rX>s1>s1
   >s8>s8>s8>s8>pX>pX>po+pp>po+pp>po+sd>po+sd>po+pW>po+pW>po+rZ>po+rZ>po+rY>po+rY>po+s0>po+s0
   >po+s8>po+s8>po+s8>po+pX>po+pX>po+pX>s4>s4>s4>s4>po+pu>po+pv>po+pT>po+pX>po+pY>pq+pu>pq+pv
   >pq+pw>pq+pT>pq+pX>pq+pY>ps+pu>ps+pv>ps+pw>ps+pT>ps+pX>ps+pY>pt+pu>pt+pT>pt+pX>pt+pY>pu+pv
   >pu+pT>pv+pu>pv+pT>pw+pu>pw+pv>pw+pT>pB+pu>pB+pv>pB+pw>pB+pT>pD+pv>pD+pT>pE+pu>pE+pv>pE+pw
   >pE+pT>pF+pv>pF+pT>pG+pT>pH+pu>pH+pT>pI+pu>pI+pT>pP+pu>pP+pv>pP+pw>pP+pT>pP+pX>pP+pY>pQ+pv
   >pQ+pT>pQ+pX>pQ+pY>pR+pp>pR+pu>pR+pv>pR+pw>pR+pS>pR+pT>pR+pX>pR+pY>pS+pu>pS+pv>pS+pw>pS+pT
   >pS+pX>pS+pY>pT+pu>pT+pv>pT+pw>pT+pT>pT+pX>pT+pY>pU+pu>pU+pv>pU+pw>pU+pT>pU+pX>pU+pY>pV+pu
   >pV+pT>pV+pX>pV+pY>pY+pu>pY+pv>pY+pw>pY+pT>pY+pX>pY+pY>py+qA>pz+qA>pX+qA>w+q0+q5>w+q1+q5
   >w+q2+q5>w+q3+q5>w+q4+q5>w+q5+qA>po+pz>po+pA>po+pT>po+pU>po+pX>po+pY>pq+pz>pq+pA>pq+pT>pq+pU
   >pq+pX>pq+pY>ps+pz>ps+pA>ps+pT>ps+pU>ps+pX>ps+pY>pt+pz>pt+pA>pt+pT>pt+pU>pt+pX>pt+pY>pP+pX
   >pP+pY>pQ+pX>pQ+pY>pR+pp>pR+pS>pR+pT>pR+pX>pR+pY>pS+pT>pS+pX>pS+pY>pT+pp>pT+pT>pU+pz>pU+pA
   >pU+pT>pU+pU>pU+pX>pU+pY>pX+qA>pY+pz>pY+pA>pY+pT>pY+pU>pY+pX>pY+pY>po+pu>po+pv>po+pw>po+pT
   >po+pV>pq+pu>pq+pv>pq+pw>pq+pT>pq+pV>ps+pu>ps+pv>ps+pw>ps+pT>ps+pV>pt+pT>pu+pv>pu+pT>pv+pu
   >pv+pT>pw+pu>pw+pT>pB+pu>pB+pv>pB+pw>pB+pT>pD+pv>pD+pw>pD+pT>pE+pu>pE+pv>pE+pw>pE+pT>pF+pv
   >pG+pT>pH+pu>pH+pT>pI+pu>pI+pT>pP+pu>pP+pv>pP+pw>pP+pT>pQ+pv>pQ+pT>pR+pu>pR+pv>pR+pw>pR+pS
   >pR+pT>pS+pu>pS+pv>pS+pw>pS+pT>pS+pV>pT+pu>pT+pv>pT+pw>pT+pT>pU+pu>pU+pv>pU+pw>pU+pT>pU+pV
   >pV+pu>pV+pT>pV+qA>pY+pu>pY+pv>pY+pw>pY+pT>pY+pV>po+pT>po+pV>pq+pT>pq+pV>ps+pT>ps+pV>pt+pT
   >pt+pV>pB+pT>pB+pV>pC+pT>pC+pV>pR+pS>pR+pT>pS+pT>pU+pT>pU+pV>pY+pT>pY+pV>pO+q2+q5>pO+q3+q5
   >pO+q4+q5>pF+pX>pF+pY>pH+pX>pH+pY>pI+pX>pI+pY>pB+pX>pB+pY>pC+pX>pC+pY>pv+pX>pv+pY>pu+pX>pu+pY
   >pw+pX>pw+pY>pD+pX>pD+pY>pE+pX>pE+pY>pC+pu>pC+pv>pC+pw>pC+pT>pC+pz>pB+pz>pD+pz>pE+pz>pF+pX
   >pF+pY>pH+pX>pH+pY>pI+pX>pI+pY>pB+pX>pB+pY>pC+pX>pC+pY>pv+pX>pv+pY>pu+pX>pu+pY>pw+pX>pw+pY
   >pD+pX>pD+pY>pE+pX>pE+pY>pC+pu>pC+pv>pC+pw>pC+pT>pC+pz>pB+pz>pD+pz>pE+pz>pC+pu>pC+pv>pC+pw
   >pC+pT>pB+pV>pC+pV>pF+pT>pB+pu>pB+pv>pB+pw>pC+pu>pC+pv>pC+pw>pF+pT>pG+pT>pp+pZ>pp+pZ j>ps+pu+pT
   >ps+pv+pu>ps+pv+pu>ps+pv+pT>ps+pw+pT>ps+pT+pu>ps+pT+pv>ps+pT+pw>pu+pT+pv>pu+pT+pv>pv+pT+pY
   >pv+pT+pX>pB+pv+pu>pB+pu+pv>pB+pu+pX>pB+pT+pv>pB+pT+pv>pB+pT+pu>pB+pT+pT>pB+pT+pT>pD+pv+pv
   >pD+pv+pv>pD+pT+pT>pC+pv+pT>pC+pv+pT>pC+pu+pY>pC+pT+pw>pC+pT+pw>pC+pT+pT>pC+pT+pT>pE+pv+pX
   >pE+pw+pT>pE+pw+pT>pF+pT+pv>pF+pT+pv>pF+pT+pT>pF+pT+pY>pH+pu+pT>pH+pT+pT>pH+pT+pT>pH+pT+pX
   >pI+pT+pT>pI+pT+pY>pI+pT+pX>pP+pw+pT>pP+pw+pT>pQ+pT+pv>pQ+pT+pT>pS+pv+pT>pS+pv+pY>pS+pv+pX
   >pS+pu+pu>pS+pu+pu>pS+pw+pT>pS+pw+pT>pS+pT+pv>pS+pT+pv>pT+pv+pu>pT+pv+pT>pT+pv+pY>pT+pu+pv
   >pT+pu+pT>pT+pw+pu>pT+pw+pT 3>pT+pu+pw>pV+pT+pu>pV+pT+pT>pU+pv+pT>pU+pv+pX>pU+pu+pT>pU+pu+pT
   >pU+pu+pX>pU+pT+pY>pU+pT+pX>pY+pT+pT>pY+pT+pT>pq+pw+pY>ps+pu+pY>ps+pu+pX>ps+pw+pY>ps+pw+pX
   >ps+pT+pY>ps+pT+pX>pu+pT+pY>pu+pv+pX>pu+pT+pX>pB+pw+pX>pD+pv+pY>pC+pv+pY>pE+pv+pY>pS+pu+pY
   >pS+pT+pY>pY+pv+pY>pY+pu+pY>pY+pT+pY>pT+pT+pY>pQ+pT+pY>pU+pv+pY>pQ+pT+pv>pS+pv+pT>pH+pT+pY
   >pR+pT+pY>pU+pu+pv>pT+pw+pY>pS+pu+pT>pR+pT+pT>pS+pu+pT>pU+pu+pv>pu+pv+pY>pv+pu+pY>pT+pu+pY
   >pP+pT+pY>pq+pv+pY>pR+pT+pT>pH+pu+pT>pD+pT+pT>pB+pw+pY>pU+pu+pY F>pD+pS+sa>pQ+pS+sa>pp+pS+pS+pV
   >pp+pR+pq+pz>pT+pv+pT+px>pD+pS+pH+pT>pz+pB+pW+pS>pH+pS+pY+pV>pW+pB+pS+pT>pD+pS+pX
   >pD+pS+pX+w+pp+pS+pS+pV+w+pH+pS+pY+pV+w+pW+pB+pS+pT>pu+pS+w+pu+pS+pp+pS+pV>pz+s4+pp+pS k>I>3cd
   2-1>W>x>11 -1>3cy p>28s>28r>1x>1x -1>E>1Z>21 -1>3cw -1>3cs -1>3cm -1>3ck -3>3co 3>1t>1v>w+ct
   >w+ct>w+ct>w+ct>1x>1x>1x>I>3cd 3>X>W>11>x>28s -1>E>1Z>21 -1>3cw>z>C -1>G>J>Y>10>Z 2>1u -1>A>12
   5>w+pZ>pO+pZ>w+q0 2>w+q1 2>w+q2>pO+q2>w+q3>pO+q3>w+q4>pO+q4>w+q5>pO+q5>w+q6>pO+q6 -1>pj -1>pk
   -1>pl -1>pm -1>pn>po>po -1>po -1>pp>pq>pq -1>pq -1>pr>ps>ps -1>ps>pt>pt -1>pt>pu>pu -1>pu>pv>pv
   -1>pv>pw>pw -1>pw -1>px -1>py -1>pz -1>pA>pB>pB -1>pB>pC>pC -1>pC>pD>pD -1>pD>pE>pE -1>pE>pF>pF
   -1>pF>pG>pG -1>pG>pH>pH -1>pH>pI>pI>pI>pP>pP>pP -1>pP>pQ>pQ -1>pQ>pR>pR -1>pR>pS>pS -1>pS>pT>pT
   -1>pT>pU>pU -1>pU>pV>pV -1>pV -1>pW -1>pX>pY>pY>pY>pS+pk>pS+pk>pS+pl>pS+pl>pS+pn>pS+pn>pS+pp
   >pS+pp 5-v>x -p>1z -z>1t -1>2Lr>K -1>3co>3cd>3gf>3g6>3eN>3eP>3eR>3eT>3eV>3fR>3fT>3fV>3fl>3gg
   >3eO>3eQ>3eS>3eU -1>3eW>3eZ>3f1>3f3>3f5>3f7>3f9>3fb>3fd>3ff>3fh>3fj>3fm>3fo>3fq -5>3fs>3fA>3fD
   >3fG>3fJ -4>3fM>3fS>3fU -5>3fW>3g3>3g7 -1>3eF 2-1>18c>1aW>18e -1>1aY -2>18f -5>1b2>18C -2>18i
   >18J -9>18l 4-5>19L 3-5>19R 3-5>19X 3-2>1a3 4-1>2C>2M>w+cs>2G>2F>2aR 2>2sO -3>2eA>2vm>2w3
   gO-D>hkc 2d-z>hn2 2x-a>hq7 2-e>hqj 2-6>hqz 2-1>hqH 7W-1>bC>3I>aJ>9B 2>aT>bpI>aV>aU -1>9E>1Y5>9G
   >9M>aZ>9S>9Q>9O>aL>4L>aM>9V>ao -1>b0>a0>vTS>b9Q>a2>vTT>ay>vTU>40 -1>aa>1P>ae>vTW -1>ah>ak>aY>aW
   >bpJ>aX>as>2Xv 2>az -1>aR>aI -2>7e>vTY>vUi jI-O>hTG 2y-l>hWw Kn-v>iHe 5H3-v>ooM 13-o>oqf
   6gC-p>1z -9>M i9>uZp+uZD>uZq+uZD>uZq+uZD+uZM>uZq+uZD+uZN>uZq+uZD+uZO>uZq+uZD+uZP>uZq+uZD+uZQ
   1p>v0Z+uZD>v10+uZD>v0Z+uZD+uZM>v10+uZD+uZM>v0Z+uZD+uZN>v10+uZD+uZN 9i-p>1z -p>1z -p>1z -6>1z
   2-h>1H -p>1z -p>1z>1z 2-1>1B 3>1F 3-1>1I 3-3>1M 2-7>1R -3>1z 2>1E 2-6>1G 2-a>1O -p>1z -p>1z
   -1>1z 2-3>1C 3-7>1I 2-6>1R 2-p>1z -1>1z 2-3>1C 2-4>1H 2>1N 4-6>1R 2-p>1z -p>1z -p>1z -p>1z
   -p>1z -p>1z -p>1z -p>1z -p>1z -p>1z -p>1z -p>1z -p>1z>4V>99 3-g>ff>fm -6>fx>2gv -g>ff>fx -6>fx
   >2gq>fj>fm>fo>fA>fv>fu -g>ff>fm -6>fx>2gv -g>ff>fx -6>fx>2gq>fj>fm>fo>fA>fv>fu -g>ff>fm -6>fx
   >2gv -g>ff>fx -6>fx>2gq>fj>fm>fo>fA>fv>fu -g>ff>fm -6>fx>2gv -g>ff>fx -6>fx>2gq>fj>fm>fo>fA>fv
   >fu -g>ff>fm -6>fx>2gv -g>ff>fx -6>fx>2gq>fj>fm>fo>fA>fv>fu>fX>fX 3-9>M -9>M -9>M -9>M -9>M
   xP-8>hi -2>hs -a>hw>hJ -1>hL>b5D>k1>hU>hW>kh>jl>jR -8>hi -1>hs -1>hw>hz -5>hB -1>hI>iR>hU>hT>i3
   >jh>b4J>jn zp-x>wzE k7-1>pp>pu>px 2>pW>pA>pv>pF>pY -3>pR>pB>pH>pP>pD>pQ>pz>pC -1>ps>pw>py>pE>pG
   >pI>qy>rM>rn>qz 2>pq>pu 2>pV 3>pv 2>pY -3>pR>pB>pH>pP>pD>pQ 2>pC -1>ps>pw 2>pE 2>pI 7>pu 5>pv
   2>pY 2>pS 2>pU>pB>pH 2>pD>pQ 2>pC 3>pw 2>pE 2>pI 2>rM 2>qz 2>pq>pu 2>pV 3>pv>pF>pY>pR 2-1>pT>pB
   >pH>pP>pD>pQ 2>pC -1>ps>pw 2>pE>pG>pI>qy 2>rn 2-1>pp>pu>px -1>pV>pA>pv>pF>pY 2-2>pS>pB>pH>pP>pD
   >pQ>pz>pC -1>ps>pw>py>pE>pG>pI 6>pq>pu>px 2>pW>pA>pv>pF>pY 2-2>pS>pB>pH>pP>pD>pQ>pz>pC -1>ps>pw
   >py>pE>pG>pI 9o>M+I>N+I>O+I>P+I>Q+I>R+I>S+I>T+I>U+I>V+I 6>E+1z+F>E+1A+F>E+1B+F>E+1C+F>E+1D+F
   >E+1E+F>E+1F+F>E+1G+F>E+1H+F>E+1I+F>E+1J+F>E+1K+F>E+1L+F>E+1M+F>E+1N+F>E+1O+F>E+1P+F>E+1Q+F
   >E+1R+F>E+1S+F>E+1T+F>E+1U+F>E+1V+F>E+1W+F>E+1X+F>E+1Y+F>3cw+1R+3cx>1B>1Q>1B+1C>1V+1Y 2-p>1z
   >1G+1U>1L+1U>1R+1C>1R+1R>1O+1O+1U>1V+1B r>1L+1B>1L+1C>1L+1Q A>1C+1I 1O>3eb+3dp>3f5+3f5>3f7
   e>6xR>659>5A0>3fp>5ek>5VU>9bl>5W9>5eI>6NG>7x7>6Lv>5tP>6mw>5qJ>6LS>5t3>8lc>7NB>9mN>5Ve>5BL>7oE
   >6z3>6C9>5c4>5cd>9BM>6fI>5cN>5AD>6AT>9q0>6xZ>85H>89I>5AY>7mg>6Rr>6Rq>7NV>5uq>5HU>9FX
   5>3cw+6S0+3cx>3cw+5cd+3cx>3cw+5ek+3cx>3cw+65X+3cx>3cw+7vr+3cx>3cw+6xZ+3cx>3cw+7UH+3cx
   >3cw+5w9+3cx>3cw+6Kr+3cx 8>6mH>5Az DJ-9>M gMD>5d3>5cY>5d7>yaK>5hK>5j0>5jd>5km>5mi>5mN>5o3>5nF
   >3vg>yvM>5pH>5pO>5q4>5qn>yra>3vH>5q7>5qJ>yrV>5qT>5r6>5fm>5re>5rn>HOn>5sp>5sD>3wj>5tx>5tI>5uq
   >5uv>3xb>5vN>5vP>5wg>5wC -1>5wN>5x5>5xT>5y1>5ya>5yz>5yJ>5yL>5yL>5yL>yM4>7ug>5zY>5Aj>yR5>5Av>5AB
   >5AW>5Do>5BK>5C0>5Cw>5Ds>5EO>5Fe>5Gj>5Gz>5H6>5H6>5Hr>5HJ>5HR>5I6>5NA>5Jc>5NB>5Kp>5KY>5sH>5Vc
   >5Qy>5Ra>5Rz>5Pt>5Sa>5S9>5U8>zuk>5Vg>5Vl>5VA>5VU>5W2>5X4>zBC>zCG>5Zi>603>60f>5YY>61g>3EO>3F2
   >63S>64K>64K>zOw>66T>67e>67t>67F>zTW>67R>67Y>6lB>68q>3Hb>69q>69E>6aY>6a9>A5u>6d5>A5w>6dM>6dJ
   >6e0 -1>6fD>3JZ>6g5>6gM>6h7>6hP>3KO>Akr>3Le>6iY>6j1>6j4>6jo>IZs>6ke>Arn>Arn>8EN>6kO>6kO>3Mr>Btu
   >EC6>6lQ>6lZ>3MT>6mK>6nz>6nJ>6oh>6qt>3Oi>3NO>6qM>AGo>6rB>6tG>6tK>6tM>6tK>6uu>6uO>6vo>6va>6vl
   >6w6>6wq>6wu>6wU>6x5>6y9>6zv>6A4>6C4>AXO>6BL>6AI>6Cs>6CT>6Es>B1v>6Fs>6DX>6Dv>3Se>6GB>6GW>6Hr
   >6GP>3Te>6Kj>6KM>Biq>6MH>6Ra>6Ol>3W1>6Pv>3VK>3Va>5qO>5qR>6Ri>6PG>8zj>4w9>6RF>6RJ>6RP>6SO>6SD
   >BxN>3WN>6Vk>6Tr>6WK>6Xz>BAx>6XI>6VV>6ZS>3Y9>70C>72b>73k>76o>BJF>77d>408>78l>BRZ>79a>410>79E
   >7an -1>7aO>BZP>A1Z>C1A>7dc>C8Q>7f1>7ff>7dB>7gq>7h4>7hZ>7h7>7hL>7i0>7id>Caq>7gU>7kX>7lY>44H>7nt
   >7np>Chr>7k5>7q6>CjI>Cku>7rw>7tn>7sW>7sT>46i>7tE>7ut>7un>7vf>yrj>7xH>Cwb>7z6>CBt>7Bm>7Bz>7C0
   >CLe>7CM>7D7>CQ5>CTG>7GO>7H5>4aM>7Hv>4aY>4aY>7K7>7Ks>7KN>7L7>7Me>4cz>7NG>DaK>7O6>Dce>7OU>AkT
   >7Ru>DoR>Dpe>Dru>4gc>4go>7Va>Duj>Dui>DuV>Dvl -1>7VQ>7VR>7Wy>4hb>7XB>4ho>4iG>DHn>80K>81K>82M>4jV
   >DPM>850>DRE>DSl>85V>87p>4l9>88M>88W>891>E3y>E8n>E8n>8bA>4oy>Ecz>8f4>8f7>4p9>Eg0>8jo>4r6>8jK
   >8jF>8k8>Esu>8lJ>4sF>8nl>8oi>8pn>4tu>EDm>EDR>4u5>EGd>8um>EHQ>8uN>8wq>8wB>EOu>EPF>8y4>ERO>8yk
   >Bwb>4w5>8zo>8AH>4wX>8BE>62x>F03>F0h>Bx1>Bxa>8EN>8EQ>9z0>4yv>8H7>8H1>8Hj>5vt>8HD>8HF>8HP>8Iu
   >FeQ>8It>8Jn>8Kv>8LH>8Jt>8LX>8MD>8Or>8Kf>8Ma>8Mc>8Ms>FiS>FnR>Flr>4BB>8QV>8QX>8Rw>FOa>8SM>Fv6
   >4Cp>4Ct>Fxf>FBU>4CD>8WA>8WM>8WX>8WZ>8Y1>8Xu>8ZE>8YW>91n>904>919>91A>4En>933>93z>4EV>956>959
   >FYX>971>978>4FT>97A>3vJ>G8m>Gbk>4I6>4If>9eo>9fD>9ia>9lr>GoM>9mP>9nb>9oD>9q7>Gzd>yDa>9rt>9re
   >9s4>yGG>9vK>9xm>H0C>H13>9CY>9Et>9EZ>H6e>9F9>9JK -1>9Mj>9KQ>9QZ>9Rr>Hq2>9Xt>4TP>9Yb>Hwb>4V8>a2v
   >6eS>a43>HLT>HPk>4Xk>4Xs>a76>HXk>4Yq>HZA>a7N>a7N>a8h>I4e>abg>50v>acp>aer>aeS>afQ>530>IqQ>aki
   >apa>asd>578>57D>atV>IO2>57O>IOV>ITc>IVj>azp>59k>aAp>aAu>aAB>aAL>aAS>aBt>J9u"

end Vyper.Host.MappingTable
