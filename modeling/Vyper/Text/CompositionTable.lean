import Vyper.Text.CodeTable

/-!
# Composed characters

The characters that canonical composition makes of two others, each with the two, and the combining
classes of marks. A character without an entry has the class zero. Hangul syllables are left out:
`Composition` computes them.
-/

namespace Vyper.CompositionTable

def pairs : CodeTable := .ofText
  "36>13+co>13+cp>13+cq>13+cr>13+cw>13+cy 2>15+d1>17+co>17+cp>17+cq>17+cw>1b+co>1b+cp>1b+cq>1b+cw
   2>1g+cr>1h+co>1h+cp>1h+cq>1h+cr>1h+cw 3>1n+co>1n+cp>1n+cq>1n+cw>1r+cp 3>1z+co>1z+cp>1z+cq>1z+cr
   >1z+cw>1z+cy 2>1B+d1>1D+co>1D+cp>1D+cq>1D+cw>1H+co>1H+cp>1H+cq>1H+cw 2>1M+cr>1N+co>1N+cp>1N+cq
   >1N+cr>1N+cw 3>1T+co>1T+cp>1T+cq>1T+cw>1X+cp 2>1X+cw>13+cs>1z+cs>13+cu>1z+cu>13+d2>1z+d2>15+cp
   >1B+cp>15+cq>1B+cq>15+cv>1B+cv>15+cA>1B+cA>16+cA>1C+cA 3>17+cs>1D+cs>17+cu>1D+cu>17+cv>1D+cv
   >17+d2>1D+d2>17+cA>1D+cA>19+cq>1F+cq>19+cu>1F+cu>19+cv>1F+cv>19+d1>1F+d1>1a+cq>1G+cq 3>1b+cr
   >1H+cr>1b+cs>1H+cs>1b+cu>1H+cu>1b+d2>1H+d2>1b+cv 4>1c+cq>1I+cq>1d+d1>1J+d1 2>1e+cp>1K+cp>1e+d1
   >1K+d1>1e+cA>1K+cA 5>1g+cp>1M+cp>1g+d1>1M+d1>1g+cA>1M+cA 4>1h+cs>1N+cs>1h+cu>1N+cu>1h+cz>1N+cz
   3>1k+cp>1Q+cp>1k+d1>1Q+d1>1k+cA>1Q+cA>1l+cp>1R+cp>1l+cq>1R+cq>1l+d1>1R+d1>1l+cA>1R+cA>1m+d1
   >1S+d1>1m+cA>1S+cA 3>1n+cr>1T+cr>1n+cs>1T+cs>1n+cu>1T+cu>1n+cy>1T+cy>1n+cz>1T+cz>1n+d2>1T+d2
   >1p+cq>1V+cq>1r+cq>1X+cq>1r+cw>1s+cp>1Y+cp>1s+cv>1Y+cv>1s+cA>1Y+cA y>1h+cP>1N+cP e>1n+cP>1T+cP
   t>13+cA>1z+cA>1b+cA>1H+cA>1h+cA>1N+cA>1n+cA>1T+cA>3y+cs>44+cs>3y+cp>44+cp>3y+cA>44+cA>3y+co
   >44+co 2>3a+cs>3G+cs>8S+cs>8T+cs>3c+cs>3I+cs 3>19+cA>1F+cA>1d+cA>1J+cA>1h+d2>1N+d2>7U+cs>7V+cs
   >75+cA>aC+cA>1I+cA 4>19+cp>1F+cp 3>1g+co>1M+co>3b+cp>3H+cp>3c+cp>3I+cp>3u+cp>40+cp>13+cD>1z+cD
   >13+cF>1z+cF>17+cD>1D+cD>17+cF>1D+cF>1b+cD>1H+cD>1b+cF>1H+cF>1h+cD>1N+cD>1h+cF>1N+cF>1k+cD
   >1Q+cD>1k+cF>1Q+cF>1n+cD>1T+cD>1n+cF>1T+cF>1l+d0>1R+d0>1m+d0>1S+d0 3>1a+cA>1G+cA 7>13+cv>1z+cv
   >17+d1>1D+d1>3s+cs>3Y+cs>3r+cs>3X+cs>1h+cv>1N+cv>90+cs>91+cs>1r+cs>1X+cs 5s>2I+cp>eJ+cp 2>eN+cp
   >eP+cp>eR+cp 2>eX+cp 2>f3+cp>f7+cp>fE+cp q>eR+cw>f3+cw>ff+cp>fj+cp>fl+cp>fn+cp>fF+cp q>fn+cw
   >fz+cw>ft+cp>fz+cp>fD+cp 5>fM+cp>fM+cw I>gR+co>gR+cw 2>gP+cp 4>gC+cw 5>gW+cp>gU+co>h5+cu
   b>gU+cu w>hq+cu n>hn+co>hn+cw 2>hl+cp 4>hU+cw 5>hs+cp>hq+co>hB+cu o>io+cD>ip+cD 1c>gS+cu>ho+cu
   e>gM+cu>hi+cu>gM+cw>hi+cw 3>gR+cu>hn+cu 3>k0+cw>k1+cw>gS+cw>ho+cw>gT+cw>hp+cw 3>gU+cs>hq+cs
   >gU+cw>hq+cw>h0+cw>hw+cw 3>kg+cw>kh+cw>hf+cw>hL+cw>h5+cs>hB+cs>h5+cw>hB+cw>h5+cz>hB+cz>h9+cw
   >hF+cw 3>hd+cw>hJ+cw 4N>pp+q7>pp+q8>pW+q8>pp+q9>pY+q8 2u>sd+q8 2>rT+q8 h>sa+q8 9E>BO+C8 8>BW+C8
   3>BZ+C8 2r>En+Ee>En+ED 68>Kz+KO 3>Kz+Kq>Kz+KP 1a>LM+MT S>MC+Mu>MD+Mu>MC+MT 20>OG+OW 1W>QD+QZ
   7>QK+QZ>QK+R0 2>QK+QG>QO+QZ 23>SO+SG>SP+SG>SO+T5 2i>Vb+UW 2>Vb+V1>Ve+UW>Vb+Vh 9q>14F+14O
   IU>1Nz+1Ol 2>1NB+1Ol 2>1ND+1Ol 2>1NF+1Ol 2>1NH+1Ol 4>1NL+1Ol F>1Oq+1Ol 2>1Os+1Ol 3>1Ou+1Ol
   >1Ov+1Ol 2>1Oy+1Ol bj>13+cZ>1z+cZ>14+cv>1A+cv>14+cX>1A+cX>14+db>1A+db>3d+cp>3J+cp>16+cv>1C+cv
   >16+cX>1C+cX>16+db>1C+db>16+d1>1C+d1>16+d7>1C+d7>4q+co>4r+co>4q+cp>4r+cp>17+d7>1D+d7>17+da
   >1D+da>8U+cu>8V+cu>18+cv>1E+cv>19+cs>1F+cs>1a+cv>1G+cv>1a+cX>1G+cX>1a+cw>1G+cw>1a+d1>1G+d1
   >1a+d8>1G+d8>1b+da>1H+da>3l+cp>3R+cp>1d+cp>1J+cp>1d+cX>1J+cX>1d+db>1J+db>1e+cX>1K+cX>20K+cs
   >20L+cs>1e+db>1K+db>1e+d7>1K+d7>1f+cp>1L+cp>1f+cv>1L+cv>1f+cX>1L+cX>1g+cv>1M+cv>1g+cX>1M+cX
   >1g+db>1M+db>1g+d7>1M+d7>3r+cp>3X+cp>3r+cw>3X+cw>5m+co>5n+co>5m+cp>5n+cp>1i+cp>1O+cp>1i+cv
   >1O+cv>1k+cv>1Q+cv>1k+cX>1Q+cX>21k+cs>21l+cs>1k+db>1Q+db>1l+cv>1R+cv>1l+cX>1R+cX>5A+cv>5B+cv
   >5G+cv>5H+cv>21s+cv>21t+cv>1m+cv>1S+cv>1m+cX>1S+cX>1m+db>1S+db>1m+d7>1S+d7>1n+cY>1T+cY>1n+da
   >1T+da>1n+d7>1T+d7>5O+cp>5P+cp>5Q+cw>5R+cw>1o+cr>1U+cr>1o+cX>1U+cX>1p+co>1V+co>1p+cp>1V+cp
   >1p+cw>1V+cw>1p+cv>1V+cv>1p+cX>1V+cX>1q+cv>1W+cv>1q+cw>1W+cw>1r+cv>1X+cv>1s+cq>1Y+cq>1s+cX
   >1Y+cX>1s+db>1Y+db>1G+db>1S+cw>1V+cy>1X+cy 2>6b+cv 5>13+cX>1z+cX>13+cx>1z+cx>38+cp>3E+cp>38+co
   >3E+co>38+cx>3E+cx>38+cr>3E+cr>22s+cq>22t+cq>4a+cp>4b+cp>4a+co>4b+co>4a+cx>4b+cx>4a+cr>4b+cr
   >22s+cu>22t+cu>17+cX>1D+cX>17+cx>1D+cx>17+cr>1D+cr>3g+cp>3M+cp>3g+co>3M+co>3g+cx>3M+cx>3g+cr
   >3M+cr>22Q+cq>22R+cq>1b+cx>1H+cx>1b+cX>1H+cX>1h+cX>1N+cX>1h+cx>1N+cx>3q+cp>3W+cp>3q+co>3W+co
   >3q+cx>3W+cx>3q+cr>3W+cr>23a+cq>23b+cq>6I+cp>6J+cp>6I+co>6J+co>6I+cx>6J+cx>6I+cr>6J+cr>6I+cX
   >6J+cX>1n+cX>1T+cX>1n+cx>1T+cx>6X+cp>6Y+cp>6X+co>6Y+co>6X+cx>6Y+cx>6X+cr>6Y+cr>6X+cX>6Y+cX
   >1r+co>1X+co>1r+cX>1X+cX>1r+cx>1X+cx>1r+cr>1X+cr 7>ff+cH>ff+cI>240+co>241+co>240+cp>241+cp
   >240+ds>241+ds>eJ+cH>eJ+cI>248+co>249+co>248+cp>249+cp>248+ds>249+ds>fj+cH>fj+cI>24g+co>24h+co
   >24g+cp>24h+cp 3>eN+cH>eN+cI>24o+co>24p+co>24o+cp>24p+cp 3>fl+cH>fl+cI>24w+co>24x+co>24w+cp
   >24x+cp>24w+ds>24x+ds>eP+cH>eP+cI>24E+co>24F+co>24E+cp>24F+cp>24E+ds>24F+ds>fn+cH>fn+cI>24M+co
   >24N+co>24M+cp>24N+cp>24M+ds>24N+ds>eR+cH>eR+cI>24U+co>24V+co>24U+cp>24V+cp>24U+ds>24V+ds>ft+cH
   >ft+cI>252+co>253+co>252+cp>253+cp 3>eX+cH>eX+cI>25a+co>25b+co>25a+cp>25b+cp 3>fz+cH>fz+cI
   >25i+co>25j+co>25i+cp>25j+cp>25i+ds>25j+ds 2>f3+cI 2>25r+co 2>25r+cp 2>25r+ds>fD+cH>fD+cI
   >25y+co>25z+co>25y+cp>25z+cp>25y+ds>25z+ds>f7+cH>f7+cI>25G+co>25H+co>25G+cp>25H+cp>25G+ds
   >25H+ds>ff+co 2>fj+co 2>fl+co 2>fn+co 2>ft+co 2>fz+co 2>fD+co 4>240+dv>241+dv>242+dv>243+dv
   >244+dv>245+dv>246+dv>247+dv>248+dv>249+dv>24a+dv>24b+dv>24c+dv>24d+dv>24e+dv>24f+dv>24w+dv
   >24x+dv>24y+dv>24z+dv>24A+dv>24B+dv>24C+dv>24D+dv>24E+dv>24F+dv>24G+dv>24H+dv>24I+dv>24J+dv
   >24K+dv>24L+dv>25y+dv>25z+dv>25A+dv>25B+dv>25C+dv>25D+dv>25E+dv>25F+dv>25G+dv>25H+dv>25I+dv
   >25J+dv>25K+dv>25L+dv>25M+dv>25N+dv>ff+cu>ff+cs>25O+dv>ff+dv>fa+dv 2>ff+ds>26W+dv>eJ+cu>eJ+cs
   >eJ+co 2>eJ+dv 5>2I+ds>25S+dv>fl+dv>fc+dv 2>fl+ds>27c+dv>eN+co 2>eP+co 2>eP+dv>275+co>275+cp
   >275+ds>fn+cu>fn+cs>fE+co 4>fn+ds>fE+ds>eR+cu>eR+cs>eR+co 3>286+co>286+cp>286+ds>fz+cu>fz+cs
   >fF+co 2>fv+cH>fv+cI>fz+ds>fF+ds>f3+cu>f3+cs>f3+co 2>eZ+cI>2I+co 5>260+dv>fD+dv>fI+dv 2>fD+ds
   >27Y+dv>eX+co 2>f7+co 2>f7+dv 6G>2eA+di>2eC+di j>2eE+di v>2fC+di>2fG+di>2fE+di R>2gr+di
   5>2gw+di 3>2gz+di o>2gX+di 2>2gZ+di r>2hm+di 3>2ht+di 3>2hv+di 2>2hy+di n>Z+di 2>2hX+di
   b>2hD+di>Y+di>10+di>2i0+di>2i1+di 3>2ie+di>2if+di 3>2ii+di>2ij+di 7>2im+di>2in+di 3>2iu+di
   >2iv+di 3>2iy+di>2iz+di z>2j0+di>2j6+di>2j7+di>2j9+di N>2io+di>2ip+di>2iJ+di>2iK+di 7>2jg+di
   >2jh+di>2ji+di>2jj+di Td>3dp+3eF 2>3dr+3eF 2>3dt+3eF 2>3dv+3eF 2>3dx+3eF 2>3dz+3eF 2>3dB+3eF
   2>3dD+3eF 2>3dF+3eF 2>3dH+3eF 2>3dJ+3eF 2>3dL+3eF 3>3dO+3eF 2>3dQ+3eF 2>3dS+3eF 7>3dZ+3eF
   >3dZ+3eG 2>3e2+3eF>3e2+3eG 2>3e5+3eF>3e5+3eG 2>3e8+3eF>3e8+3eG 2>3eb+3eF>3eb+3eG n>3dk+3eF
   a>3eJ+3eF e>3eX+3eF 2>3eZ+3eF 2>3f1+3eF 2>3f3+3eF 2>3f5+3eF 2>3f7+3eF 2>3f9+3eF 2>3fb+3eF
   2>3fd+3eF 2>3ff+3eF 2>3fh+3eF 2>3fj+3eF 3>3fm+3eF 2>3fo+3eF 2>3fq+3eF 7>3fx+3eF>3fx+3eG
   2>3fA+3eF>3fA+3eG 2>3fD+3eF>3fD+3eG 2>3fG+3eF>3fG+3eG 2>3fJ+3eF>3fJ+3eG n>3eS+3eF 3>3g3+3eF
   >3g4+3eF>3g5+3eF>3g6+3eF 4>3gh+3eF eaD>hr4+cv r>hrc+cv Ie>i9z+ia6 2>i9B+ia6 f>i9L+ia6
   27>ic1+ibR>ic2+ibR 8I>ikD+iku>ikD+ikT T>ilA+imJ 2>ilC+imv 9>ilJ+imC 3>ilO+imJ Q>imC+imC
   2>imC+ims>imC+imJ 3V>iqB+iqC>iqB+iqs 2>iqB+iqF 44>iuI+iuz>iuJ+iuz ep>iJ7+iJ2 4MV>nw2+nw2
   >nw2+nwd>nw2+nw3>nwd+nw3>nw2+nw4>nw5+nw3>nw6+nw3>nw5+nw4 OA>okL+okL>okH+okL>okN+okL"

def classes : CodeTable := .ofText
  "co-k>3I>3K -3>3y>3K>3u -4>3y -1>3g -3>3y -1>3g -a>3y -4>1 -3>3y -7>3I>3S>3I -2>3y -2>3I -1>3y
   2-2>3I -3>3y>3I>3K -1>3y>3I>3L -1>3M>3L -1>3M>3L -c>3I 4s-4>3I 4i>3y -3>3I>3y -2>3I>3A>3y -5>3I
   -5>3y -1>3I>3y -1>3I>3A>3G>3I>a>b>c>d>e>f>g>h>i -1>j>k>l>m 2>n 2>o>p 2>3I>3y 2>i 1b-7>3I>u>v>w
   N>r>s>t>u>v>w>x>y -1>3I -1>3y -4>3I>3y -1>3I>3y h>z 1E-6>3I 3-3>3I>3y>3I 3-1>3I 2>3y -1>3I>3y
   A>A v>3I>3y -1>3I>3y -1>3I -2>3y>3I -1>3y>3I>3y -2>3I>3y>3I>3y>3I>3y>3I>3y -1>3I 2B-6>3I>3y>3I
   a>3y p-3>3I 2-8>3I 2-2>3I 2-4>3I I-2>3y Y-1>3I -2>3y -3>3I H-4>3I -4>3y -d>3I 2>3y -1>3I>3y
   -1>3I>3y -2>3I -2>3y>r>s>t -2>3I>3y -1>3I -1>3y -4>3I Z>7 h>9 4>3I>3y -1>3I 1G>7 h>9 N>3I 10>7
   h>9 1N>7 h>9 1N>7 h>9 24>9 1N>7 h>9 8>1m>1t 1E>7 h>9 1M-1>9 h>9 21>9 1M-1>1F>9 e-3>1J 1L-1>1U>9
   e-3>1Y 1f-1>3y s>3y 2>3y 2>3u U>25>26 2>28 6-3>26 3>26 2-1>3I>9 2-1>3I 11>3y 1P>7 2-1>9 1l>3y
   bC-2>3I fj-1>9 v>9 2y>9 b>3I 3i>3G 2k>3A>3I>3y 3y>3I>3y 1a>9 l-7>3I 3>3y N-4>3I -5>3y -1>3I>3y
   2-1>3y -1>3I -1>3y -4>3I>3y -h>3I>3y 3-5>3I>3y -3>3I>3M 1b>7 g>9 D>3I>3y -6>3I T-1>9 X>7 c-1>9
   16>7 2t-2>3I 2>1 -4>3y -1>3I -3>3y>3I 2-6>1 5>3y 7>3I 4-1>3I 3d-1>3I>3y -6>3I>3y -1>3I>3M>3s>3y
   >3g -A>3I>3K -1>3G>3y>3w>3I>3L>3y>3I>3y bD-1>3I -1>1 -3>3I -2>1 -1>3I 5>3I 4-1>1>3I>3y>3I -1>1
   -3>3y>3I Nx-2>3I 2i>9 1z-v>3I 8X>3w>3G>3K>3A -1>3C 1I-1>8 7Qx>3I 5-9>3I x-1>3I 1j-1>3I 4t>9 C>9
   2s>9 s-h>3I W-2>3y C>9 1y>7 d>9 3S>3I 2-1>3I>3y 3-1>3I 6-1>3I 2>3I R>9 3Z>9 5gZ>q cq-6>3I -6>3y
   -1>3I fI>3y 3F>3y 2q-4>3I r9>3y 2>3I F>3I>1>3y 5>9 2G>3I>3y 9g-3>3I 14-4>3I 58-1>3I 1g-1>3y
   2-2>3y 19-1>3y -2>3I>3y>3I -3>3y O>3I>3y>3I>3y 37>9 G>9 f>9 W>9>7 18-2>3I N-1>9 11>7 1f>9 a>7
   1J>9>7 2T>7>9 1j-1>7 h>9 p-6>3I 4-4>3I 1s-2>9 1Q>9 4>7 o>3I 1C>9>7 44>9>7 23>9 1V>9>7 1S>9 4m>9
   >7 4b-1>9 5>7 2x>9 1m>9 j>9 1k>9 6O>9 4b>7 2-1>9 1k>9 6S-1>9 4od>9 Eh-4>1 Y-6>3I jw-1>6 56B>1
   1nN-1>3u -2>1 4>3E -4>3u 9-7>3y 3-4>3I -1>3y v-3>3I 2p-2>3I UI-6>3I 2-g>3I 3-6>3I 2-1>3I 2-4>3I
   1D>3I 2B-6>3I 64>3I 10-3>3I 8d-1>3K>3y>3I 47>3I>3y 3W>3I 3>3I 8-1>3I 6>3I 7F-6>3y 1M-5>3I>7"

end Vyper.CompositionTable
